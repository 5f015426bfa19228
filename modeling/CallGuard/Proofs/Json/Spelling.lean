import CallGuard.Json.Reader
import CallGuard.Json.Value
import Mathlib.Tactic

/-!
The texts of a JSON value. Between the parts of a value there may be any blanks, so a value
has many texts; without blanks and with one part to a line are two ways to write one.

* `Spells`: a text is a text of a value.
* `Spells.exists_cons`: how a text of a value starts.
* `Value.spells_compact`, `Value.spells_prettyAt`: what is written for a value is a text of it.
-/

namespace CallGuard.Json

/-- A text of blanks only. -/
def Blanks (ws : List Char) : Prop :=
  ∀ c ∈ ws, isSpace c = true

lemma blanks_nil : Blanks [] := fun _ hc => absurd hc List.not_mem_nil

lemma Blanks.append {ws ws' : List Char} (h : Blanks ws) (h' : Blanks ws') :
    Blanks (ws ++ ws') := by
  intro c hc
  rcases List.mem_append.mp hc with hc | hc
  · exact h c hc
  · exact h' c hc

mutual

/-- A text of a value. -/
inductive Spells : Value → List Char → Prop
  | string (text : List Char) : Spells (.string text) (quote text)
  | emptyArray {ws : List Char} : Blanks ws → Spells (.array []) ('[' :: (ws ++ [']']))
  | array {v : Value} {vs : List Value} {ws text more : List Char} :
      Blanks ws → Spells v text → SpellsElements vs more →
      Spells (.array (v :: vs)) ('[' :: (ws ++ (text ++ more) ++ [']']))
  | emptyObject {ws : List Char} : Blanks ws → Spells (.object []) ('\x7b' :: (ws ++ ['\x7d']))
  | object {name : List Char} {v : Value} {ms : List (List Char × Value)}
      {ws text more : List Char} :
      Blanks ws → SpellsMember name v text → SpellsMembers ms more →
      Spells (.object ((name, v) :: ms)) ('\x7b' :: (ws ++ (text ++ more) ++ ['\x7d']))

/-- Elements that each follow a comma, and the blanks after them. -/
inductive SpellsElements : List Value → List Char → Prop
  | nil {ws : List Char} : Blanks ws → SpellsElements [] ws
  | cons {v : Value} {vs : List Value} {ws ws' text more : List Char} :
      Blanks ws → Blanks ws' → Spells v text → SpellsElements vs more →
      SpellsElements (v :: vs) (ws ++ ',' :: (ws' ++ (text ++ more)))

/-- A member: its name, a colon and its value. -/
inductive SpellsMember : List Char → Value → List Char → Prop
  | mk {name : List Char} {v : Value} {ws ws' text : List Char} :
      Blanks ws → Blanks ws' → Spells v text →
      SpellsMember name v (quote name ++ (ws ++ ':' :: (ws' ++ text)))

/-- Members that each follow a comma, and the blanks after them. -/
inductive SpellsMembers : List (List Char × Value) → List Char → Prop
  | nil {ws : List Char} : Blanks ws → SpellsMembers [] ws
  | cons {name : List Char} {v : Value} {ms : List (List Char × Value)}
      {ws ws' text more : List Char} :
      Blanks ws → Blanks ws' → SpellsMember name v text → SpellsMembers ms more →
      SpellsMembers ((name, v) :: ms) (ws ++ ',' :: (ws' ++ (text ++ more)))

end

/-- A name, a colon and a text of a value make a member. -/
lemma Spells.member {v : Value} {text : List Char} (h : Spells v text) (name : List Char)
    {ws ws' : List Char} (hws : Blanks ws) (hws' : Blanks ws') :
    SpellsMember name v (quote name ++ (ws ++ ':' :: (ws' ++ text))) :=
  .mk hws hws' h

/-- A text of a value starts with a quote or an opening bracket. -/
lemma Spells.exists_cons {v : Value} {text : List Char} (h : Spells v text) :
    ∃ c cs, text = c :: cs ∧ (c = '"' ∨ c = '[' ∨ c = '\x7b') := by
  cases h with
  | string text => exact ⟨_, _, rfl, Or.inl rfl⟩
  | emptyArray hws => exact ⟨_, _, rfl, Or.inr (Or.inl rfl)⟩
  | array hws hv hvs => exact ⟨_, _, rfl, Or.inr (Or.inl rfl)⟩
  | emptyObject hws => exact ⟨_, _, rfl, Or.inr (Or.inr rfl)⟩
  | object hws hm hms => exact ⟨_, _, rfl, Or.inr (Or.inr rfl)⟩

/-- There are no more elements than characters. -/
lemma SpellsElements.length_le {vs : List Value} {text : List Char} (h : SpellsElements vs text) :
    vs.length ≤ text.length := by
  induction vs generalizing text with
  | nil => exact Nat.zero_le _
  | cons v vs ih =>
      cases h with
      | cons hws hws' hv hvs =>
          have := ih hvs
          simp only [List.length_cons, List.length_append]
          omega

/-- There are no more members than characters. -/
lemma SpellsMembers.length_le {ms : List (List Char × Value)} {text : List Char}
    (h : SpellsMembers ms text) : ms.length ≤ text.length := by
  induction ms generalizing text with
  | nil => exact Nat.zero_le _
  | cons m ms ih =>
      cases h with
      | cons hws hws' hm hms =>
          have := ih hms
          simp only [List.length_cons, List.length_append]
          omega

/-! ### Without blanks -/

namespace Value

mutual

/-- A value without blanks is a text of it. -/
theorem spells_compact : (v : Value) → Spells v v.compact
  | .string text => .string text
  | .array [] => .emptyArray blanks_nil
  | .array (v :: vs) => by
      have h := Spells.array blanks_nil v.spells_compact (spells_compactElements vs)
      simpa [compact] using h
  | .object [] => .emptyObject blanks_nil
  | .object ((name, v) :: ms) => by
      have hm := v.spells_compact.member name blanks_nil blanks_nil
      have h := Spells.object blanks_nil hm (spells_compactMembers ms)
      simpa [compact] using h

/-- The same for the elements after the first. -/
theorem spells_compactElements : (vs : List Value) → SpellsElements vs (compactElements vs)
  | [] => .nil blanks_nil
  | v :: vs => by
      have h := SpellsElements.cons blanks_nil blanks_nil v.spells_compact
        (spells_compactElements vs)
      simpa [compactElements] using h

/-- The same for the members after the first. -/
theorem spells_compactMembers :
    (ms : List (List Char × Value)) → SpellsMembers ms (compactMembers ms)
  | [] => .nil blanks_nil
  | (name, v) :: ms => by
      have hm := v.spells_compact.member name blanks_nil blanks_nil
      have h := SpellsMembers.cons blanks_nil blanks_nil hm (spells_compactMembers ms)
      simpa [compactMembers] using h

end

/-! ### One part to a line -/

lemma blanks_newline (level : Nat) : Blanks (newline level) := by
  intro c hc
  rcases List.mem_cons.mp hc with rfl | hc
  · rfl
  · obtain rfl := List.eq_of_mem_replicate hc
    rfl

lemma blanks_space : Blanks [' '] := by
  intro c hc
  obtain rfl := List.mem_singleton.mp hc
  rfl

end Value

/-- Blanks may follow the last element. -/
lemma SpellsElements.append {vs : List Value} {text ws : List Char} (h : SpellsElements vs text)
    (hws : Blanks ws) : SpellsElements vs (text ++ ws) := by
  induction vs generalizing text with
  | nil =>
      cases h with
      | nil h => exact .nil (h.append hws)
  | cons v vs ih =>
      cases h with
      | cons h h' hv hvs =>
          have := SpellsElements.cons h h' hv (ih hvs)
          simpa using this

/-- Blanks may follow the last member. -/
lemma SpellsMembers.append {ms : List (List Char × Value)} {text ws : List Char}
    (h : SpellsMembers ms text) (hws : Blanks ws) : SpellsMembers ms (text ++ ws) := by
  induction ms generalizing text with
  | nil =>
      cases h with
      | nil h => exact .nil (h.append hws)
  | cons m ms ih =>
      cases h with
      | cons h h' hm hms =>
          have := SpellsMembers.cons h h' hm (ih hms)
          simpa using this

namespace Value

mutual

/-- A value with one part to a line is a text of it. -/
theorem spells_prettyAt (level : Nat) : (v : Value) → Spells v (v.prettyAt level)
  | .string text => .string text
  | .array [] => .emptyArray blanks_nil
  | .array (v :: vs) => by
      have hvs := (spells_prettyElements (level + 1) vs).append (blanks_newline level)
      have h := Spells.array (blanks_newline (level + 1)) (v.spells_prettyAt (level + 1)) hvs
      simpa [prettyAt] using h
  | .object [] => .emptyObject blanks_nil
  | .object ((name, v) :: ms) => by
      have hm := (v.spells_prettyAt (level + 1)).member name blanks_nil blanks_space
      have hms := (spells_prettyMembers (level + 1) ms).append (blanks_newline level)
      have h := Spells.object (blanks_newline (level + 1)) hm hms
      simpa [prettyAt] using h

/-- The same for the elements after the first. -/
theorem spells_prettyElements (level : Nat) :
    (vs : List Value) → SpellsElements vs (prettyElements level vs)
  | [] => .nil blanks_nil
  | v :: vs => by
      have h := SpellsElements.cons blanks_nil (blanks_newline level) (v.spells_prettyAt level)
        (spells_prettyElements level vs)
      simpa [prettyElements] using h

/-- The same for the members after the first. -/
theorem spells_prettyMembers (level : Nat) :
    (ms : List (List Char × Value)) → SpellsMembers ms (prettyMembers level ms)
  | [] => .nil blanks_nil
  | (name, v) :: ms => by
      have hm := (v.spells_prettyAt level).member name blanks_nil blanks_space
      have h := SpellsMembers.cons blanks_nil (blanks_newline level) hm
        (spells_prettyMembers level ms)
      simpa [prettyMembers] using h

end

end Value

end CallGuard.Json
