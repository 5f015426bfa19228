import CallGuard.Proofs.Ir.Lexing
import Mathlib.Data.List.TakeWhile

/-!
The tokens of texts that lines are put after. No token goes on behind the end of a line that
it was not open at, so a text that is read by itself is read in the same way where other
lines follow it.

* `Lexeme.read_newline`: a token before a line end.
* `tokenizeFrom_newline`: all tokens of a text before a line end.
* `OnLines`: tokens line by line.
* `exists_onLines`: the tokens of lines.
-/

namespace CallGuard.Ir

/-! ### One token -/

/-- A run of characters ends before the end of its line. -/
lemma takeWhile_dropWhile_newline {p : Char → Bool} (hp : p '\n' = false) (cs rest : List Char) :
    (cs ++ '\n' :: rest).takeWhile p = cs.takeWhile p ∧
      (cs ++ '\n' :: rest).dropWhile p = cs.dropWhile p ++ '\n' :: rest := by
  induction cs with
  | nil => simp [hp]
  | cons c cs ih =>
      cases hc : p c with
      | false => simp [hc]
      | true => simpa [hc] using ih

namespace Lexeme

/-- The lexeme where another text follows. -/
def before (l : Lexeme) (s : List Char) : Lexeme :=
  { l with rest := l.rest ++ s }

lemma readWord_newline (token : String → Token) (start cs rest : List Char) :
    readWord token start (cs ++ '\n' :: rest) =
      (readWord token start cs).before ('\n' :: rest) := by
  obtain ⟨htake, hdrop⟩ := takeWhile_dropWhile_newline (p := isWordChar) (by decide) cs rest
  rw [readWord, readWord, before, htake, hdrop]

lemma orLabel_newline (l : Lexeme) (rest : List Char) :
    (l.before ('\n' :: rest)).orLabel = l.orLabel.before ('\n' :: rest) := by
  obtain ⟨token, text, tail⟩ := l
  cases tail with
  | nil => rfl
  | cons c tail =>
      by_cases hc : c = ':'
      · subst hc
        rfl
      · have hlabel (s : List Char) : orLabel ⟨token, text, c :: s⟩ = ⟨token, text, c :: s⟩ := by
          rw [orLabel.eq_def]
          split
          · rename_i heq
            exact absurd (List.cons.inj heq).1 hc
          · rfl
        rw [before, hlabel]
        exact hlabel _

/-- What stands behind the closing quote does not matter. -/
lemma readString_before {token : String → Token} {start cs : List Char} {l : Lexeme}
    (h : readString token start cs = .ok l) (s : List Char) :
    readString token start (cs ++ s) = .ok (l.before s) := by
  rw [readString] at h
  split at h
  · simp at h
  · rename_i body rest hquoted
    have hcs := splitQuoted?_append hquoted
    have hbody : '"' ∉ body := by
      rw [splitQuoted?] at hquoted
      split at hquoted
      · simp at hquoted
      · obtain ⟨rfl, -⟩ := Prod.mk.inj (Option.some.inj hquoted)
        intro hmem
        simpa using List.mem_takeWhile_imp hmem
    rw [readString, ← hcs, List.append_assoc, List.cons_append, Ir.splitQuoted?_append hbody]
    obtain rfl := Except.ok.inj h
    rfl

lemma readName_newline {token : String → Token} {sigil : Char} {cs : List Char} {l : Lexeme}
    (h : readName token sigil cs = .ok l) (rest : List Char) :
    readName token sigil (cs ++ '\n' :: rest) = .ok (l.before ('\n' :: rest)) := by
  rw [readName.eq_def] at h
  split at h
  · exact readString_before h ('\n' :: rest)
  · rename_i hquote
    obtain rfl := Except.ok.inj h
    rw [← readWord_newline, readName.eq_def]
    split
    · rename_i later heq
      cases cs with
      | nil => simp at heq
      | cons c cs =>
          obtain ⟨rfl, -⟩ := List.cons.inj heq
          exact absurd rfl (hquote cs)
    · rfl

lemma readBang_newline {cs : List Char} {l : Lexeme} (h : readBang cs = .ok l)
    (rest : List Char) : readBang (cs ++ '\n' :: rest) = .ok (l.before ('\n' :: rest)) := by
  cases cs with
  | nil =>
      obtain rfl := Except.ok.inj h
      rfl
  | cons d cs =>
      rw [readBang] at h
      rw [List.cons_append, readBang]
      split at h
      · rename_i hword
        obtain rfl := Except.ok.inj h
        rw [if_pos hword, ← readWord_newline]
        rfl
      · rename_i hword
        rw [if_neg hword]
        split at h
        · rename_i hquote
          rw [if_pos hquote]
          exact readString_before h ('\n' :: rest)
        · rename_i hquote
          obtain rfl := Except.ok.inj h
          rw [if_neg hquote]
          rfl

end Lexeme

lemma splitNumeral_newline (cs rest : List Char) :
    splitNumeral (cs ++ '\n' :: rest) =
      ((splitNumeral cs).1, (splitNumeral cs).2.1, (splitNumeral cs).2.2 ++ '\n' :: rest) := by
  have hline : splitNumeral ('\n' :: rest) = ([], false, '\n' :: rest) := by
    rw [splitNumeral.eq_def]
    rfl
  fun_induction splitNumeral cs with
  | case1 => exact hline
  | case2 c cs hc ih =>
      rw [List.cons_append, splitNumeral.eq_def]
      simp [hc, ih, consFirst]
  | case3 c hc hmark =>
      rw [List.cons_append, List.nil_append, splitNumeral.eq_def]
      simp [hc, hmark, hline, markFloat, consFirst]
  | case4 c hc hmark s cs hsign ih =>
      simp [splitNumeral, hc, hmark, hsign, ih, markFloat, consFirst]
  | case5 c hc hmark s cs hsign ih =>
      rw [List.cons_append] at ih
      simp [splitNumeral, hc, hmark, hsign, ih, markFloat, consFirst]
  | case6 c cs hc hmark =>
      rw [List.cons_append, splitNumeral.eq_def]
      simp [hc, hmark]

namespace Lexeme

lemma readNumeral_newline (sign cs rest : List Char) :
    readNumeral sign (cs ++ '\n' :: rest) = (readNumeral sign cs).before ('\n' :: rest) := by
  have hdecimal (cs : List Char) (h : ∀ later, cs ≠ '0' :: 'x' :: later) :
      readNumeral sign cs =
        if (splitNumeral cs).2.1 then
          ⟨.float (String.ofList (sign ++ (splitNumeral cs).1)), sign ++ (splitNumeral cs).1,
            (splitNumeral cs).2.2⟩
        else orLabel ⟨.integer (String.ofList (sign ++ (splitNumeral cs).1)),
          sign ++ (splitNumeral cs).1, (splitNumeral cs).2.2⟩ := by
    rw [readNumeral.eq_def]
    split
    · rename_i later
      exact absurd rfl (h later)
    · rfl
  by_cases hhex : ∃ later, cs = '0' :: 'x' :: later
  · obtain ⟨later, rfl⟩ := hhex
    obtain ⟨htake, hdrop⟩ :=
      takeWhile_dropWhile_newline (p := isHexNumeralChar) (by decide) later rest
    simp only [List.cons_append, readNumeral, htake, hdrop, before]
  · have hcs : ∀ later, cs ≠ '0' :: 'x' :: later := fun later heq => hhex ⟨later, heq⟩
    have hlonger : ∀ later, cs ++ '\n' :: rest ≠ '0' :: 'x' :: later := by
      intro later heq
      rcases cs with _ | ⟨c, _ | ⟨d, cs⟩⟩
      · simp at heq
      · simp at heq
      · simp only [List.cons_append, List.cons.injEq] at heq
        exact hcs cs (by rw [heq.1, heq.2.1])
    rw [hdecimal _ hlonger, hdecimal _ hcs, splitNumeral_newline]
    split
    · rfl
    · exact orLabel_newline ⟨_, _, _⟩ rest

lemma lead_newline (c : Char) (cs rest : List Char) :
    lead c (cs ++ '\n' :: rest) = lead c cs := by
  have hpoints : ((cs ++ '\n' :: rest).take 2 = ['.', '.']) ↔ cs.take 2 = ['.', '.'] := by
    match cs with
    | [] => simp
    | [d] => simp
    | d :: e :: cs => simp
  have hhead : ((cs ++ '\n' :: rest).head? = some '"') ↔ cs.head? = some '"' := by
    cases cs <;> simp
  have hdigit : startsWithDigit (cs ++ '\n' :: rest) = startsWithDigit cs := by
    cases cs <;> rfl
  simp only [lead, hpoints, hhead, hdigit]

/-- A token is read in the same way where a line ends behind its text. -/
lemma read_newline {c : Char} {cs : List Char} {l : Lexeme} (h : read c cs = .ok l)
    (rest : List Char) : read c (cs ++ '\n' :: rest) = .ok (l.before ('\n' :: rest)) := by
  have hfits := lead_fits c cs
  rw [read] at h ⊢
  rw [lead_newline]
  cases hlead : lead c cs with
  | punctuation token =>
      simp only [hlead] at h ⊢
      obtain rfl := Except.ok.inj h
      rfl
  | name token =>
      simp only [hlead] at h ⊢
      exact readName_newline h rest
  | marked token =>
      simp only [hlead] at h ⊢
      obtain rfl := Except.ok.inj h
      rw [readWord_newline]
  | bang =>
      simp only [hlead] at h ⊢
      exact readBang_newline h rest
  | quote =>
      simp only [hlead] at h ⊢
      cases hstring : readString .string [c] cs with
      | error e => simp [hstring, Except.map] at h
      | ok k =>
          rw [hstring] at h
          obtain rfl := Except.ok.inj h
          rw [readString_before hstring, ← orLabel_newline]
          rfl
  | byteString =>
      rw [hlead] at hfits
      simp only [hlead] at h ⊢
      cases cs with
      | nil => simp [Lead.Fits] at hfits
      | cons d cs => exact readString_before h ('\n' :: rest)
  | ellipsis =>
      rw [hlead] at hfits
      simp only [hlead] at h ⊢
      obtain rfl := Except.ok.inj h
      rcases cs with _ | ⟨d, _ | ⟨e, cs⟩⟩
      · simp [Lead.Fits] at hfits
      · simp [Lead.Fits] at hfits
      · rfl
  | numeral =>
      simp only [hlead] at h ⊢
      obtain rfl := Except.ok.inj h
      rw [← List.cons_append, readNumeral_newline]
  | signed =>
      simp only [hlead] at h ⊢
      obtain rfl := Except.ok.inj h
      rw [readNumeral_newline]
  | word =>
      simp only [hlead] at h ⊢
      obtain rfl := Except.ok.inj h
      rw [← List.cons_append, readWord_newline, orLabel_newline]
  | stray => simp [hlead] at h

/-- No kind of token is the end marker. -/
def Lead.HasToken : Lead → Prop
  | punctuation token => token ≠ .eof
  | name token | marked token => ∀ s, token s ≠ .eof
  | _ => True

lemma hasToken_lead (c : Char) (cs : List Char) : (lead c cs).HasToken := by
  rw [lead]
  split
  · rename_i token hpunctuation
    rintro rfl
    revert hpunctuation
    rw [punctuation?.eq_def]
    split <;> simp
  · repeat' refine iteInduction (motive := Lead.HasToken) (fun _ => ?_) (fun _ => ?_)
    all_goals simp [Lead.HasToken]

lemma orLabel_token_ne_eof {l : Lexeme} (h : l.token ≠ .eof) : l.orLabel.token ≠ .eof := by
  rw [orLabel]
  split
  · simp
  · exact h

lemma readString_token {token : String → Token} {start cs : List Char} {l : Lexeme}
    (h : readString token start cs = .ok l) : ∃ s, l.token = token s := by
  rw [readString] at h
  split at h
  · simp at h
  · obtain rfl := Except.ok.inj h
    exact ⟨_, rfl⟩

lemma readNumeral_token_ne_eof (sign cs : List Char) : (readNumeral sign cs).token ≠ .eof := by
  rw [readNumeral.eq_def]
  split
  · simp
  · dsimp only
    split
    · simp
    · exact orLabel_token_ne_eof (by simp)

/-- No token that is read is the end marker. -/
lemma token_ne_eof {c : Char} {cs : List Char} {l : Lexeme} (h : read c cs = .ok l) :
    l.token ≠ .eof := by
  have htoken := hasToken_lead c cs
  rw [read] at h
  cases hlead : lead c cs with
  | punctuation token =>
      rw [hlead] at htoken
      simp only [hlead] at h
      obtain rfl := Except.ok.inj h
      exact htoken
  | name token =>
      rw [hlead] at htoken
      simp only [hlead] at h
      rw [readName.eq_def] at h
      split at h
      · obtain ⟨s, hs⟩ := readString_token h
        exact hs ▸ htoken s
      · obtain rfl := Except.ok.inj h
        exact htoken _
  | marked token =>
      rw [hlead] at htoken
      simp only [hlead] at h
      obtain rfl := Except.ok.inj h
      exact htoken _
  | bang =>
      simp only [hlead] at h
      rw [readBang.eq_def] at h
      split at h
      · obtain rfl := Except.ok.inj h
        simp
      · split at h
        · obtain rfl := Except.ok.inj h
          simp [readWord]
        · split at h
          · obtain ⟨s, hs⟩ := readString_token h
            simp [hs]
          · obtain rfl := Except.ok.inj h
            simp
  | quote =>
      simp only [hlead] at h
      cases hstring : readString .string [c] cs with
      | error e => simp [hstring, Except.map] at h
      | ok k =>
          rw [hstring] at h
          obtain rfl := Except.ok.inj h
          obtain ⟨s, hs⟩ := readString_token hstring
          exact orLabel_token_ne_eof (by simp [hs])
  | byteString =>
      simp only [hlead] at h
      obtain ⟨s, hs⟩ := readString_token h
      simp [hs]
  | ellipsis =>
      simp only [hlead] at h
      obtain rfl := Except.ok.inj h
      simp
  | numeral =>
      simp only [hlead] at h
      obtain rfl := Except.ok.inj h
      exact readNumeral_token_ne_eof [] (c :: cs)
  | signed =>
      simp only [hlead] at h
      obtain rfl := Except.ok.inj h
      exact readNumeral_token_ne_eof [c] cs
  | word =>
      simp only [hlead] at h
      obtain rfl := Except.ok.inj h
      exact orLabel_token_ne_eof (by simp [readWord])
  | stray => simp [hlead] at h

end Lexeme

/-! ### All tokens -/

/-- A text that only has blanks and comments, before another line. -/
lemma splitGap_newline {comment : Bool} {s : List Char} (h : (splitGap comment s).2 = [])
    (rest : List Char) :
    splitGap comment (s ++ '\n' :: rest) =
      (s ++ '\n' :: (splitGap false rest).1, (splitGap false rest).2) := by
  induction s generalizing comment with
  | nil =>
      have hblank : Text.isBlank '\n' = true := by decide
      simp [splitGap, hblank, consFirst]
  | cons c s ih =>
      rw [splitGap] at h
      rw [List.cons_append, splitGap]
      split at h
      · rename_i hcomment
        rw [if_pos hcomment, ih h]
        rfl
      · rename_i hcomment
        rw [if_neg hcomment]
        split at h
        · rename_i hblank
          rw [if_pos hblank, ih h]
          rfl
        · rename_i hblank
          rw [if_neg hblank]
          split at h
          · rename_i hsemicolon
            rw [if_pos hsemicolon, ih h]
            rfl
          · simp at h

/-- The blanks and comments before a token. -/
lemma splitGap_append_of_cons {comment : Bool} {s : List Char} {c : Char} {cs : List Char}
    (h : (splitGap comment s).2 = c :: cs) (rest : List Char) :
    splitGap comment (s ++ rest) = ((splitGap comment s).1, c :: (cs ++ rest)) := by
  induction s generalizing comment with
  | nil => simp [splitGap] at h
  | cons d s ih =>
      rw [splitGap] at h
      rw [List.cons_append, splitGap, splitGap]
      split at h
      · rename_i hcomment
        rw [if_pos hcomment, if_pos hcomment, ih h]
        rfl
      · rename_i hcomment
        rw [if_neg hcomment, if_neg hcomment]
        split at h
        · rename_i hblank
          rw [if_pos hblank, if_pos hblank, ih h]
          rfl
        · rename_i hblank
          rw [if_neg hblank, if_neg hblank]
          split at h
          · rename_i hsemicolon
            rw [if_pos hsemicolon, if_pos hsemicolon, ih h]
            rfl
          · rename_i hsemicolon
            obtain ⟨rfl, rfl⟩ := List.cons.inj h
            rw [if_neg hsemicolon, if_neg hsemicolon]

/-- The tokens of a text: the end marker alone, or a token and the tokens behind it. -/
lemma tokenizeFrom_cases {p : Position} {s : List Char} {ls : List Located}
    (h : tokenizeFrom p s = .ok ls) :
    ((splitGap false s).2 = [] ∧ ∃ last : Located, last.token = .eof ∧
      last.line = (p.after s).line ∧ ls = [last]) ∨
    ∃ gap c cs l ls' start, splitGap false s = (gap, c :: cs) ∧ s = gap ++ (l.text ++ l.rest) ∧
      l.text ≠ [] ∧ Lexeme.read c cs = .ok l ∧
      tokenizeFrom ((p.after gap).after l.text) l.rest = .ok ls' ∧
      start.token = l.token ∧ start.line = (p.after gap).line ∧ ls = start :: ls' := by
  have hgap := splitGap_append false s
  rw [tokenizeFrom_eq] at h
  rcases hsplit : splitGap false s with ⟨gap, later⟩
  rw [hsplit] at hgap h
  cases later with
  | nil =>
      rw [List.append_nil] at hgap
      subst hgap
      obtain rfl := Except.ok.inj h
      exact .inl ⟨rfl, _, rfl, rfl, rfl⟩
  | cons c cs =>
      rw [tokenizeAt] at h
      cases hread : Lexeme.read c cs with
      | error fault => simp [hread] at h
      | ok l =>
          simp only [hread] at h
          cases htail : tokenizeFrom ((p.after gap).after l.text) l.rest with
          | error e => simp [htail, Except.map] at h
          | ok ls' =>
              rw [htail] at h
              obtain rfl := Except.ok.inj h
              refine .inr ⟨gap, c, cs, l, ls', _, rfl, ?_, Lexeme.text_ne_nil hread, hread, htail,
                rfl, rfl, rfl⟩
              rw [Lexeme.text_append_rest hread, hgap]

/-- Tokens lie on the lines of their text. -/
lemma line_of_tokenizeFrom {p : Position} {s : List Char} {ls : List Located}
    (h : tokenizeFrom p s = .ok ls) {l : Located} (hl : l ∈ ls) :
    p.line ≤ l.line ∧ l.line ≤ p.line + s.count '\n' := by
  induction hn : s.length using Nat.strongRecOn generalizing p s ls with
  | ind n ih =>
      subst hn
      obtain ⟨-, last, -, hlast, rfl⟩ | ⟨gap, c, cs, x, ls', start, -, rfl, hne, -, htail, -,
        hstart, rfl⟩ := tokenizeFrom_cases h
      · obtain rfl := List.mem_singleton.mp hl
        rw [hlast, Position.line_after]
        omega
      · have hlength := List.length_pos_of_ne_nil hne
        simp only [List.count_append]
        rcases List.mem_cons.mp hl with rfl | hl
        · rw [hstart, Position.line_after]
          omega
        · have hbound := ih x.rest.length (by simp; omega) htail hl rfl
          rw [Position.line_after, Position.line_after] at hbound
          omega

/-- The same token, on the line that is as far from the line of `q` as the other is from that
of `p`. -/
def Moved (p q : Position) (l l' : Located) : Prop :=
  l'.token = l.token ∧ l'.line + p.line = l.line + q.line

/-- **Texts before other lines.** A text that is read by itself is read in the same way where
other lines follow it. -/
lemma tokenizeFrom_newline {p : Position} {s : List Char} {ls : List Located}
    (h : tokenizeFrom p s = .ok ls) :
    ∃ ts last, ls = ts ++ [last] ∧ (∀ l ∈ ts, l.token ≠ .eof) ∧
      ∀ q rest, ∃ ts', List.Forall₂ (Moved p q) ts ts' ∧ Yields q (s ++ ['\n']) rest ts' := by
  induction hn : s.length using Nat.strongRecOn generalizing p s ls with
  | ind n ih =>
      subst hn
      obtain ⟨hgap, last, -, -, rfl⟩ | ⟨gap, c, cs, x, ls', start, hgap, rfl, hne, hread, htail,
        htoken, hstart, rfl⟩ := tokenizeFrom_cases h
      · refine ⟨[], last, rfl, by simp, fun q rest => ⟨[], .nil, ?_⟩⟩
        have hafter : q.after (s ++ '\n' :: (splitGap false rest).1) =
            (q.after (s ++ ['\n'])).after (splitGap false rest).1 := by
          rw [← Position.after_append, List.append_assoc, List.singleton_append]
        rw [Yields, List.append_assoc, List.singleton_append, tokenizeFrom_eq,
          splitGap_newline hgap, hafter, ← tokenizeFrom_eq]
        cases tokenizeFrom (q.after (s ++ ['\n'])) rest <;> rfl
      · have hlength := List.length_pos_of_ne_nil hne
        obtain ⟨ts, last, rfl, hts, hlater⟩ := ih x.rest.length (by simp; omega) htail rfl
        refine ⟨start :: ts, last, rfl, ?_, fun q rest => ?_⟩
        · exact List.forall_mem_cons.mpr ⟨htoken ▸ Lexeme.token_ne_eof hread, hts⟩
        · obtain ⟨ts', hmoved, hyields⟩ := hlater ((q.after gap).after x.text) rest
          rw [Yields, List.append_assoc, List.singleton_append] at hyields
          have hgap' := splitGap_append_of_cons (congrArg Prod.snd hgap) ('\n' :: rest)
          have hafter : q.after (gap ++ (x.text ++ x.rest) ++ ['\n']) =
              ((q.after gap).after x.text).after (x.rest ++ ['\n']) := by
            simp only [Position.after_append]
          refine ⟨⟨x.token, (q.after gap).line, (q.after gap).column, (q.after gap).offset,
            ((q.after gap).after x.text).offset⟩ :: ts', .cons ⟨htoken.symm, ?_⟩ ?_, ?_⟩
          · change (q.after gap).line + p.line = start.line + q.line
            rw [hstart, Position.line_after, Position.line_after]
            omega
          · refine hmoved.imp fun l l' hl => ⟨hl.1, ?_⟩
            have hline := hl.2
            simp only [Position.line_after] at hline
            omega
          · rw [Yields, List.append_assoc, List.singleton_append, tokenizeFrom_eq, hgap', hgap,
              tokenizeAt, Lexeme.read_newline hread rest]
            simp only [Lexeme.before]
            rw [hyields, hafter]
            cases tokenizeFrom (((q.after gap).after x.text).after (x.rest ++ ['\n'])) rest <;> rfl

/-! ### Lines -/

/-- The tokens `lss` are the tokens `tss`, each list on a line of its own from the line `n`
on. -/
inductive OnLines : Nat → List (List Token) → List (List Located) → Prop
  | nil (n : Nat) : OnLines n [] []
  | cons {n : Nat} {ts : List Token} {tss : List (List Token)} {ls : List Located}
      {lss : List (List Located)} (tokens : ls.map Located.token = ts)
      (line : ∀ l ∈ ls, l.line = n) (later : OnLines (n + 1) tss lss) :
      OnLines n (ts :: tss) (ls :: lss)

/-- A line with its end. -/
lemma Spells.exists_line {s : List Char} {ts : List Token} {rest : List Char}
    (h : Spells s ts ('\n' :: rest)) (p : Position) :
    ∃ ls : List Located, ls.map Located.token = ts ∧ (∀ l ∈ ls, l.line = p.line) ∧
      Yields p (s ++ ['\n']) rest ls := by
  obtain ⟨ls, hls, hline, hyields⟩ := h.tokens p
  have hend : Yields (p.after s) ['\n'] rest [] := by
    rw [Yields, List.singleton_append, tokenizeFrom_blank (by decide)]
    exact Yields.nil _ rest
  refine ⟨ls, hls, hline, ?_⟩
  rw [← List.append_nil ls]
  exact .append hyields hend

/-- The line behind a line. -/
lemma Spells.line_after {s : List Char} {ts : List Token} {rest : List Char} (h : Spells s ts rest)
    (p : Position) : (p.after (s ++ ['\n'])).line = p.line + 1 := by
  rw [Position.line_after, List.count_append, List.count_eq_zero.mpr h.oneLine]
  rfl

/-- The tokens of lines. -/
lemma exists_onLines {α : Type} {text : α → List Char} {tokens : α → List Token}
    (h : ∀ a rest, Spells (text a) (tokens a) ('\n' :: rest)) (as : List α) (p : Position)
    (rest : List Char) :
    ∃ lss, OnLines p.line (as.map tokens) lss ∧
      Yields p (as.flatMap fun a => text a ++ ['\n']) rest lss.flatten := by
  induction as generalizing p with
  | nil => exact ⟨[], .nil _, .nil p rest⟩
  | cons a as ih =>
      obtain ⟨ls, hls, hline, hyields⟩ := (h a _).exists_line p
      obtain ⟨lss, hlss, hlater⟩ := ih (p.after (text a ++ ['\n']))
      rw [(h a rest).line_after] at hlss
      exact ⟨ls :: lss, .cons hls hline hlss, .append hyields hlater⟩

end CallGuard.Ir
