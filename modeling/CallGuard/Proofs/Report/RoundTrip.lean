import CallGuard.Proofs.Json.Reading
import CallGuard.Report.Reader
import CallGuard.Report.Writer

/-!
Reports are read back from what is written for them, whether record by record or as a whole.

* `Signature.decodes_reader`, `Record.decodes_reader`: the readers of the parts of a report.
* `Fragment.spells_write`: the records that are written one after the other are the members of
  an object.
* `Report.parse_written`: both forms of a report are read back.
-/

namespace CallGuard

open Json

/-! ### Readers -/

lemma Signature.decodes_reader (s : Signature) : Decodes Signature.reader s.value s := by
  have hargs : Decodes (readArray readString)
      (.array (s.args.map fun a => .string a.toList)) s.args :=
    decodes_readArray decodes_readString s.args
  have hpair := PairShape.decodes_read
    ⟨"ret", readString, "args", readArray readString, []⟩ (by decide)
    (decodes_readString s.ret) hargs
  exact hpair.map fun p => Signature.mk p.1 p.2

lemma Record.decodes_reader (r : Record) : Decodes Record.reader r.value r := by
  have hcalls : Decodes (readArray Signature.reader) (.array (r.calls.map (·.value))) r.calls :=
    decodes_readArray Signature.decodes_reader r.calls
  have hpair := PairShape.decodes_read
    ⟨"Type", Signature.reader, "Calls", readArray Signature.reader, []⟩ (by decide)
    r.type.decodes_reader hcalls
  exact hpair.map fun p => Record.mk p.1 p.2

/-! ### Records as they come -/

namespace Fragment

lemma blanks_tabs (n : Nat) : Blanks (List.replicate n '\t') := by
  intro c hc
  obtain rfl := List.eq_of_mem_replicate hc
  rfl

lemma blanks_line {ws : List Char} (hws : Blanks ws) : Blanks ('\n' :: ws) := by
  intro c hc
  rcases List.mem_cons.mp hc with rfl | hc
  · rfl
  · exact hws c hc

/-- The types after the first, from the end of its line on. -/
lemma spells_moreTypes {indent ws : List Char} (hindent : Blanks indent) (hws : Blanks ws)
    (ts : List String) :
    SpellsElements (ts.map fun t => .string t.toList)
      ('\n' :: (ts.flatMap (fun t => indent ++ ',' :: (quote t.toList ++ ['\n'])) ++ ws)) := by
  induction ts with
  | nil => exact .nil (blanks_line hws)
  | cons t ts ih =>
      have h := SpellsElements.cons (blanks_line hindent) blanks_nil (.string t.toList) ih
      simpa using h

/-- Pieces that are made one after the other, put together. -/
lemma flatten_flatMap {α : Type} (f : α → List (List Char)) (as : List α) :
    (as.flatMap f).flatten = as.flatMap fun a => (f a).flatten := by
  rw [List.flatMap_def, List.flatten_flatten, List.map_map]
  rfl

/-- Types one to a line are the elements of an array. -/
lemma spells_types {indent ws : List Char} (hindent : Blanks indent) (hws : Blanks ws)
    (ts : List String) :
    Spells (.array (ts.map fun t => .string t.toList))
      ('[' :: ('\n' :: ((types indent ts).flatten ++ ws) ++ [']'])) := by
  cases ts with
  | nil => exact .emptyArray (blanks_line hws)
  | cons t ts =>
      have h := Spells.array (blanks_line hindent) (.string t.toList)
        (spells_moreTypes hindent hws ts)
      simpa [types, flatten_flatMap] using h

lemma quote_ret : quote ['r', 'e', 't'] = ['"', 'r', 'e', 't', '"'] := rfl

lemma quote_args : quote ['a', 'r', 'g', 's'] = ['"', 'a', 'r', 'g', 's', '"'] := rfl

lemma quote_type : quote ['T', 'y', 'p', 'e'] = ['"', 'T', 'y', 'p', 'e', '"'] := rfl

lemma quote_calls : quote ['C', 'a', 'l', 'l', 's'] = ['"', 'C', 'a', 'l', 'l', 's', '"'] :=
  rfl

/-- A call is a text of its signature on lines of their own. -/
lemma exists_call (s : Signature) :
    ∃ text, Spells s.value text ∧
      (call s).flatten = List.replicate 3 '\t' ++ (text ++ ['\n']) := by
  have hret := (Spells.string s.ret.toList).member "ret".toList Value.blanks_space
    Value.blanks_space
  have hargs := (spells_types (blanks_tabs 4) (blanks_tabs 3) s.args).member "args".toList
    Value.blanks_space Value.blanks_space
  have hline := blanks_line (blanks_tabs 3)
  refine ⟨_, .object blanks_nil hret (.cons hline blanks_nil hargs (.nil hline)), ?_⟩
  simp [call, quote_ret, quote_args, List.replicate]

/-- The calls after the first, from the end of its line on. -/
lemma spells_moreCalls {ws : List Char} (hws : Blanks ws) (ss : List Signature) :
    SpellsElements (ss.map (·.value))
      ('\n' :: (ss.flatMap (fun s => ',' :: (call s).flatten) ++ ws)) := by
  induction ss with
  | nil => exact .nil (blanks_line hws)
  | cons s ss ih =>
      obtain ⟨text, htext, hcall⟩ := exists_call s
      have h := SpellsElements.cons (blanks_line blanks_nil) (blanks_tabs 3) htext ih
      simpa [hcall] using h

/-- Calls are the elements of an array. -/
lemma spells_calls {ws : List Char} (hws : Blanks ws) (ss : List Signature) :
    Spells (.array (ss.map (·.value)))
      ('[' :: ('\n' :: ((calls ss).flatten ++ ws) ++ [']'])) := by
  cases ss with
  | nil => exact .emptyArray (blanks_line hws)
  | cons s ss =>
      obtain ⟨text, htext, hcall⟩ := exists_call s
      have h := Spells.array (blanks_line (blanks_tabs 3)) htext (spells_moreCalls hws ss)
      simpa [calls, hcall, flatten_flatMap] using h

/-- A record is a member on lines of its own. -/
lemma exists_member (name : String) (r : Record) :
    ∃ text, SpellsMember name.toList r.value text ∧ (member name r).flatten = text ++ ['\n'] := by
  have hret := (Spells.string r.type.ret.toList).member "ret".toList Value.blanks_space
    Value.blanks_space
  have hargs := (spells_types (blanks_tabs 3) (blanks_tabs 2) r.type.args).member "args".toList
    Value.blanks_space Value.blanks_space
  have htype := (Spells.object (blanks_line (blanks_tabs 2)) hret
    (.cons (blanks_line (blanks_tabs 2)) blanks_nil hargs
      (.nil (blanks_line (blanks_tabs 1))))).member "Type".toList blanks_nil Value.blanks_space
  have hcalls := (spells_calls (blanks_tabs 1) r.calls).member "Calls".toList blanks_nil
    Value.blanks_space
  have hrecord := Spells.object (blanks_line (blanks_tabs 1)) htype
    (.cons (blanks_line (blanks_tabs 1)) blanks_nil hcalls (.nil (blanks_line blanks_nil)))
  refine ⟨_, hrecord.member name.toList Value.blanks_space Value.blanks_space, ?_⟩
  simp [member, quote_ret, quote_args, quote_type, quote_calls, List.replicate]

/-- The records after the first, from the end of its line on. -/
lemma spells_write_false (pairs : List (String × Record)) :
    SpellsMembers (pairs.map fun p => (p.1.toList, p.2.value)) ('\n' :: write false pairs) := by
  induction pairs with
  | nil => exact .nil (blanks_line blanks_nil)
  | cons p pairs ih =>
      obtain ⟨text, htext, hmember⟩ := exists_member p.1 p.2
      have h := SpellsMembers.cons (blanks_line blanks_nil) blanks_nil htext ih
      simpa [write, next, pieces, hmember] using h

/-- With braces around them, records that are written one after the other are an object. -/
lemma spells_write (pairs : List (String × Record)) :
    Spells (.object (pairs.map fun p => (p.1.toList, p.2.value)))
      ('\x7b' :: (write true pairs ++ ['\x7d'])) := by
  cases pairs with
  | nil => exact .emptyObject blanks_nil
  | cons p pairs =>
      obtain ⟨text, htext, hmember⟩ := exists_member p.1 p.2
      have h := Spells.object blanks_nil htext (spells_write_false pairs)
      simpa [write, next, pieces, hmember] using h

/-- What is written starts with the quote of a name. -/
lemma head?_write (pairs : List (String × Record)) :
    ∀ c, (write true pairs).head? = some c → c = '"' := by
  intro c hc
  cases pairs with
  | nil => simp [write] at hc
  | cons p pairs =>
      obtain ⟨text, ⟨hws, hws', hv⟩, hmember⟩ := exists_member p.1 p.2
      simp [write, next, pieces, hmember, quote] at hc
      exact hc.symm

/-- Records that are written later do not change what has been written. -/
lemma write_append (first : Bool) (pairs more : List (String × Record)) :
    write first (pairs ++ more) = write first pairs ++ write (first && pairs.isEmpty) more := by
  induction pairs generalizing first with
  | nil => simp [write]
  | cons p pairs ih => simp [write, ih]

end Fragment

/-! ### Reports -/

namespace Report

/-- An object is read as the report of its members. -/
lemma ofObject_of_spells {pairs : List (String × Record)} {text ws : List Char}
    (h : Spells (.object (pairs.map fun p => (p.1.toList, p.2.value))) text) (hws : Blanks ws) :
    ofObject (text ++ ws) = .ok (OrderedMap.ofList pairs) := by
  have hread := read_of_decodes (decodes_readObject Record.decodes_reader pairs) blanks_nil h hws
  rw [ofObject, ← List.nil_append (text ++ ws), ← List.append_assoc, hread]
  rfl

/-- Records that are written one after the other are read back. -/
lemma ofFragment_write (pairs : List (String × Record)) :
    ofFragment (Fragment.write true pairs) = .ok (OrderedMap.ofList pairs) := by
  have h := ofObject_of_spells (Fragment.spells_write pairs) blanks_nil
  rwa [List.append_nil] at h

/-- They need no braces. -/
lemma parse_write (pairs : List (String × Record)) :
    parse (Fragment.write true pairs) = .ok (OrderedMap.ofList pairs) := by
  have hhead := Fragment.head?_write pairs
  have htrim : Text.trimStart (Fragment.write true pairs) = Fragment.write true pairs := by
    rw [Text.trimStart]
    cases hwrite : Fragment.write true pairs with
    | nil => rfl
    | cons c cs =>
        obtain rfl := hhead c (by rw [hwrite, List.head?_cons])
        rfl
  have hbrace : (Fragment.write true pairs).head? ≠ some '\x7b' := fun h =>
    absurd (hhead _ h) (by decide)
  rw [parse, htrim, if_neg hbrace, ofFragment_write]

/-- A text of an object is read as the report of its members. -/
lemma parse_of_spells {r : Report} {text : List Char} (h : Spells r.value text) :
    parse (text ++ ['\n']) = .ok r := by
  have hread : ofObject (text ++ ['\n']) = .ok (OrderedMap.ofList r.entries) :=
    ofObject_of_spells h (Fragment.blanks_line blanks_nil)
  rw [OrderedMap.ofList_entries] at hread
  obtain ⟨cs, rfl⟩ : ∃ cs, text = '\x7b' :: cs := by
    rw [value] at h
    generalize r.entries.map _ = members at h
    cases h with
    | emptyObject hws => exact ⟨_, rfl⟩
    | object hws hm hms => exact ⟨_, rfl⟩
  have htrim : Text.trimStart ('\x7b' :: cs ++ ['\n']) = '\x7b' :: cs ++ ['\n'] := rfl
  rw [parse, htrim]
  exact (if_pos rfl).trans hread

/-- A whole report that is written is read back. -/
lemma parse_render (r : Report) (pretty : Bool) : parse (r.render pretty) = .ok r := by
  cases pretty with
  | false => exact parse_of_spells r.value.spells_compact
  | true => exact parse_of_spells (r.value.spells_prettyAt 0)

/-- **Reports are read back.** Records that are written one after the other are read, after
every record and with or without braces around them, as the report that inserting them in this
order into an empty report gives. There a later record of a name replaces the earlier one and
keeps its place. A whole report that is written without blanks or with one part to a line is
read as itself. -/
theorem parse_written :
    (∀ pairs more : List (String × Record),
      Fragment.write true pairs <+: Fragment.write true (pairs ++ more) ∧
        parse (Fragment.write true pairs) = .ok (OrderedMap.ofList pairs) ∧
        ofFragment (Fragment.write true pairs) = .ok (OrderedMap.ofList pairs)) ∧
      (∀ (pairs : List (String × Record)) (name : String) (record : Record),
        let before := OrderedMap.ofList pairs
        let after := OrderedMap.ofList (pairs ++ [(name, record)])
        after.keys = (if name ∈ before.keys then before.keys else before.keys ++ [name]) ∧
          ∀ k, after.find? k = if k = name then some record else before.find? k) ∧
      ∀ (r : Report) (pretty : Bool), parse (r.render pretty) = .ok r := by
  refine ⟨fun pairs more => ⟨?_, parse_write pairs, ofFragment_write pairs⟩, ?_, parse_render⟩
  · rw [Fragment.write_append]
    exact List.prefix_append _ _
  · intro pairs name record before after
    have hafter : after = before.insert name record := by
      simp only [after, before, OrderedMap.ofList, List.foldl_append, List.foldl_cons,
        List.foldl_nil]
    rw [hafter]
    exact ⟨before.keys_insert name record, before.find?_insert name record⟩

end Report

end CallGuard
