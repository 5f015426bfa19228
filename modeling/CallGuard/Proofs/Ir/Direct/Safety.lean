import CallGuard.Proofs.Ir.Direct.Lexeme
import CallGuard.Proofs.Ir.Direct.Module

/-!
Texts and modules without a look first: the tokens of a text are read by byte offsets, the module
of the tokens by indices.

* `parse`: reading a module without a look first.
* `peekAt_eq_getElem?`, `advance_eq`: a cursor is an index into its tokens, which need not end
  with an end marker.
* `parse_never_crashes`: no text, no tokens and no cursor make a reader crash.
-/

namespace CallGuard.Ir.Direct

open Parse (advance)

/-- The module that a text spells. -/
def parse (source : String) : Except Stop Module := do
  parseTokens (← scan source)

lemma parse_eq (source : String) : parse source = (Module.parse source).mapError .refused := by
  rw [parse, scan_eq, Module.parse]
  cases tokenize source with
  | error e => rfl
  | ok tokens => exact parseTokens_eq tokens

/-! ### Indices -/

/-- The tokens ahead are those behind the position, and there is an end marker behind all. -/
lemma peekAt_eq_getElem? (c : Cursor) (n : Nat) :
    c.peekAt n = (c.tokens[c.position + n]?.map Located.token).getD .eof := by
  have hitem : c.tokens[c.position + n]? = c.rest[n]? := by
    rw [Cursor.tokens, Cursor.position, ← List.length_reverse,
      List.getElem?_append_right (Nat.le_add_right _ _), Nat.add_sub_cancel_left]
  rw [hitem, Cursor.peekAt]
  cases c.rest[n]? <;> rfl

/-- Reading a token moves the position by one, but not over the end. -/
lemma advance_eq (c : Cursor) : ∃ c', advance c = .ok c.peek c' ∧ c'.tokens = c.tokens ∧
    c'.position = min (c.position + 1) c.tokens.length := by
  obtain ⟨cs, _ | ⟨t, ls⟩⟩ := c
  · exact ⟨⟨cs, []⟩, rfl, rfl, by simp [Cursor.tokens, Cursor.position]⟩
  · exact ⟨⟨t :: cs, ls⟩, rfl, by simp [Cursor.tokens], by
      simp [Cursor.tokens, Cursor.position]⟩

/-! ### No crash -/

/-- Reading without a look first never crashes. Every text gives the module or the error that it
gives to readers that look first, and the same tokens; the cuts that this takes are cuts between
characters. Any tokens, with or without an end marker, are read as a module and as blocks, and
from any cursor the loops over tokens do the same as those that look first. A cursor is an index
that never goes beyond its tokens, a type that is read takes at least one of them, and no type is
too deep. -/
theorem parse_never_crashes :
    (∀ source, parse source = (Module.parse source).mapError .refused) ∧
    (∀ source, scan source = (tokenize source).mapError .refused) ∧
    (∀ s a b n, splitAt? s n = some (a, b) ↔ s = a ++ b ∧ Text.byteLength a = n) ∧
    (∀ tokens, parseTokens tokens =
      ((parseEntities tokens.length {}).runOn tokens).mapError .refused) ∧
    (∀ tokens, readBlocks tokens = (Block.readAll tokens).mapError .refused) ∧
    skipGroup = ofParse Parse.skipGroup ∧
    skipToDelimiter = ofParse Parse.skipToDelimiter ∧
    skipEntity = ofParse Parse.skipEntity ∧
    skipToBody = ofParse Ir.skipToBody ∧
    (∀ name line, parseBody name line = ofParse (Ir.parseBody name line)) ∧
    (∀ (c : Cursor) (n : Nat), c.peekAt n =
      (c.tokens[c.position + n]?.map Located.token).getD .eof) ∧
    (∀ c, ∃ c', advance c = .ok c.peek c' ∧ c'.tokens = c.tokens ∧
      c'.position = min (c.position + 1) c.tokens.length) ∧
    parseType = ofParse Ir.parseType ∧
    parseParams = ofParse Ir.parseParams ∧
    (∀ c t c', Ir.parseType c = .ok t c' → c.Behind c') ∧
    (∀ c d, Ir.TypeGrammar.depthFor c ≤ d → Ir.TypeGrammar.type d c = Ir.parseType c) :=
  ⟨parse_eq, scan_eq, fun _ _ _ _ => splitAt?_eq_some_iff, parseTokens_eq, readBlocks_eq,
    skipGroup_eq, skipToDelimiter_eq, skipEntity_eq, skipToBody_eq, parseBody_eq,
    peekAt_eq_getElem?, advance_eq, parseType_eq, parseParams_eq,
    fun _ _ _ h => reads_parseType.behind (fun _ _ _ hne => hne) h,
    fun _ _ h => Ir.TypeGrammar.type_of_le h⟩

end CallGuard.Ir.Direct
