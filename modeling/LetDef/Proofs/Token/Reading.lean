import LetDef.Proofs.Token.Shape
import Mathlib.Tactic.FinCases

/-!
# Reading what has a shape

The converse of what `LetDef.Proofs.Token.Shape` says about reading: a text that has the shape of a
kind of token, with nothing behind it that the token would have taken, is read as a token of that
kind. So any tokens can be written down one by one, with blanks between them.
-/

namespace LetDef.Token

/-! ### Numbers -/

lemma not_isNameStart_of_isDigit {c : Char} (h : isDigit c = true) : isNameStart c = false := by
  rw [isDigit_iff] at h
  have hle : c.toNat ≤ '9'.toNat := h.2
  have ha : ¬ 'a' ≤ c := fun ha =>
    absurd (Nat.le_trans (show 'a'.toNat ≤ c.toNat from ha) hle) (by decide)
  have hA : ¬ 'A' ≤ c := fun hA =>
    absurd (Nat.le_trans (show 'A'.toNat ≤ c.toNat from hA) hle) (by decide)
  have hu : c ≠ '_' := by
    rintro rfl
    exact absurd hle (by decide)
  simp [isNameStart, ha, hA, hu]

lemma not_isNameStart_of_isSign {c : Char} (h : isSign c = true) : isNameStart c = false := by
  simp only [isSign, Bool.or_eq_true, decide_eq_true_eq] at h
  rcases h with rfl | rfl <;> decide

/-- A number is read where it stands. -/
lemma readLexeme_of_number {sign ds tail : List Char} {c : Char} {cs : List Char}
    (hs : SignPart sign) (hd : WholePart ds) (hcs : c :: cs = sign ++ ds ++ tail) :
    readLexeme c cs = readNumber (sign ++ ds ++ tail) := by
  obtain ⟨d, ds', hds⟩ := List.exists_cons_of_ne_nil hd.ne_nil
  have hdigit : isDigit d = true := hd.digits d (by simp [hds])
  rw [readLexeme, ← hcs]
  cases hs with
  | none =>
    rw [hds] at hcs
    cases hcs
    rw [if_neg (by simp [not_isNameStart_of_isDigit hdigit]), if_pos (by simp [hdigit])]
  | @sign s hs =>
    rw [hds] at hcs
    cases hcs
    rw [if_neg (by simp [not_isNameStart_of_isSign hs]), if_pos (by simp [hs, hdigit])]

lemma readNumber_integer {sign ds rest : List Char} (hs : SignPart sign) (hd : WholePart ds)
    (hrest : ∀ c ∈ rest.head?, isDigit c = false ∧ c ≠ '.') :
    readNumber (sign ++ ds ++ rest) = .ok (.integer, sign ++ ds) := by
  have hsplit : splitSign (sign ++ (ds ++ rest)) = (sign, ds ++ rest) := by
    refine splitSign_append hs fun c hc => ?_
    obtain ⟨d, ds', rfl⟩ := List.exists_cons_of_ne_nil hd.ne_nil
    cases hc
    exact not_isSign_of_isDigit (hd.digits _ (by simp))
  have htake := takeWhile_append_of_head hd.digits fun c hc => (hrest c hc).1
  have hdrop := dropWhile_append_of_head hd.digits fun c hc => (hrest c hc).1
  unfold readNumber
  rw [List.append_assoc, hsplit]
  simp only [htake, hdrop]
  split
  · next d ds' => exact absurd rfl (hd.no_redundant_zero d ds')
  · split
    · next rest' => exact absurd rfl (hrest '.' rfl).2
    · rfl

lemma readNumber_decimal {sign ds fs rest : List Char} (hs : SignPart sign) (hd : WholePart ds)
    (hf : FractionPart fs) (hrest : ∀ c ∈ rest.head?, isDigit c = false) :
    readNumber (sign ++ ds ++ '.' :: (fs ++ rest)) = .ok (.decimal, sign ++ ds ++ '.' :: fs) := by
  have hsplit : splitSign (sign ++ (ds ++ '.' :: (fs ++ rest))) =
      (sign, ds ++ '.' :: (fs ++ rest)) := by
    refine splitSign_append hs fun c hc => ?_
    obtain ⟨d, ds', rfl⟩ := List.exists_cons_of_ne_nil hd.ne_nil
    cases hc
    exact not_isSign_of_isDigit (hd.digits _ (by simp))
  have hpoint : ∀ c ∈ ('.' :: (fs ++ rest)).head?, isDigit c = false := by
    rintro c ⟨⟩
    rfl
  have htake := takeWhile_append_of_head hd.digits hpoint
  have hdrop := dropWhile_append_of_head hd.digits hpoint
  have hfraction := takeWhile_append_of_head hf.digits hrest
  unfold readNumber
  rw [List.append_assoc, hsplit]
  simp only [htake, hdrop, hfraction]
  split
  · next d ds' => exact absurd rfl (hd.no_redundant_zero d ds')
  · split
    · exact absurd rfl hf.ne_nil
    · rfl

/-! ### Quoted literals -/

lemma readItem_of_spells {body rest : List Char} {c : Char} (h : Spells '\'' body [c]) :
    readItem (body ++ rest) = .ok body := by
  cases h with
  | plain hq hb hl h =>
    cases h
    simp [readItem, hq, hb, hl]
  | escape he h =>
    cases h
    simp [readItem, readEscape, he]

lemma readStringRest_of_spells {body cs rest : List Char} (h : Spells '"' body cs) :
    ∀ skipped, readStringRest skipped (body ++ '"' :: rest) = .ok (body ++ ['"']) := by
  induction h with
  | nil =>
    intro skipped
    rfl
  | @plain c body cs hq hb hl h ih =>
    intro skipped
    rw [List.cons_append, readStringRest.eq_5]
    · rw [hl, ih]
      rfl
    · exact fun hc => hq hc
    · exact fun hc => absurd hc hb
    · exact fun d ds hc => absurd hc hb
  | @escape e c body cs he h ih =>
    intro skipped
    rw [List.cons_append, List.cons_append, readStringRest]
    simp [he, ih]
    rfl

/-! ### Operators -/

/-- The one-character operators that start a two-character one. -/
lemma readOperator_of_stem {c : Char} {rest : List Char} (hc : c ∈ ['=', '!', '<', '>'])
    (hrest : ∀ d ∈ rest.head?, d ≠ '=') : readOperator (c :: rest) = some [c] := by
  have hne : ∀ d rest', rest = d :: rest' → ('=' == d) = false := by
    rintro d rest' rfl
    exact beq_false_of_ne (hrest d rfl).symm
  cases rest with
  | nil => fin_cases hc <;> rfl
  | cons d rest =>
    have hd := hne d rest rfl
    fin_cases hc <;> simp [readOperator, operators, List.isPrefixOf_cons_cons, hd]

/-- An operator is read where no longer one stands. -/
lemma readOperator_of_mem {s : String} {rest : List Char} (hs : s ∈ operators)
    (hrest : s.toList = ['='] ∨ s.toList = ['!'] ∨ s.toList = ['<'] ∨ s.toList = ['>'] →
      ∀ c ∈ rest.head?, c ≠ '=') : readOperator (s.toList ++ rest) = some s.toList := by
  by_cases hstem : s ∈ ["=", "!", "<", ">"]
  · fin_cases hstem <;> exact readOperator_of_stem (by decide) (hrest (by decide))
  · fin_cases hs <;> first | rfl | exact absurd (by decide) hstem

/-- No operator starts like a token of another kind. -/
lemma operators_start {s : String} (hs : s ∈ operators) {c : Char} (hc : s.toList.head? = some c) :
    isNameStart c = false ∧ isDigit c = false ∧ c ≠ '\'' ∧ c ≠ '"' ∧
      (isSign c = true → s.toList = ['+'] ∨ s.toList = ['-']) := by
  have hall : ∀ s ∈ operators, s.toList.head?.all (fun c => decide (isNameStart c = false ∧
      isDigit c = false ∧ c ≠ '\'' ∧ c ≠ '"' ∧
      (isSign c = true → s.toList = ['+'] ∨ s.toList = ['-']))) = true := by decide
  have hstart := hall s hs
  rw [hc] at hstart
  exact of_decide_eq_true hstart

/-! ### All kinds -/

lemma readLexeme_of_character {body rest : List Char} {c : Char} (h : Spells '\'' body [c]) :
    readLexeme '\'' (body ++ '\'' :: rest) = .ok (.character, '\'' :: body ++ ['\'']) := by
  rw [readLexeme, readCharacter, readItem_of_spells h]
  simp only [bind, Except.bind, List.drop_left]
  rfl

/-- What has the shape of a kind and is bounded by what follows is read as a token of that kind. -/
theorem readLexeme_of_shape {c : Char} {cs rest : List Char} {kind : Kind}
    (h : Shape kind (c :: cs)) (hrest : Bounded kind (c :: cs) rest) :
    readLexeme c (cs ++ rest) = .ok (kind, c :: cs) := by
  generalize htext : c :: cs = text at h hrest
  cases h with
  | identifier hc hcs =>
    cases htext
    rw [readLexeme, if_pos hc, takeWhile_append_of_head hcs hrest]
  | integer hs hd =>
    rw [readLexeme_of_number hs hd (by rw [← List.cons_append, htext]),
      readNumber_integer hs hd hrest]
  | @decimal sign ds fs hs hd hf =>
    have hcs : c :: (cs ++ rest) = sign ++ ds ++ '.' :: (fs ++ rest) := by
      rw [← List.cons_append, htext, List.append_assoc, List.cons_append]
    rw [readLexeme_of_number hs hd hcs, readNumber_decimal hs hd hf hrest]
  | @character body d h =>
    obtain ⟨rfl, rfl⟩ := List.cons_eq_cons.mp htext
    rw [List.append_eq, List.append_assoc]
    exact readLexeme_of_character h
  | @string body ds h =>
    obtain ⟨rfl, rfl⟩ := List.cons_eq_cons.mp htext
    rw [List.append_eq, List.append_assoc, readLexeme, List.cons_append, List.nil_append,
      readStringRest_of_spells h]
    rfl
  | @operator s hs =>
    obtain ⟨hname, hdigit, hq, hqq, hsign⟩ := operators_start hs (by rw [← htext]; rfl)
    have hread := readOperator_of_mem hs hrest.2
    -- An operator that is a sign is bounded by something that is no digit, so it starts no number.
    have hnumber :
        (isDigit c || (isSign c && ((cs ++ rest).head?.map isDigit).getD false)) = false := by
      rw [hdigit, Bool.false_or, Bool.and_eq_false_imp]
      intro hc
      have hl := hsign hc
      have hcs : cs = [] := by
        rcases hl with hl | hl <;> rw [hl] at htext <;> cases htext <;> rfl
      rw [hcs, List.nil_append]
      cases hhead : rest.head? with
      | none => rfl
      | some d => exact hrest.1 hl d hhead
    rw [readLexeme, if_neg (by simp [hname]), if_neg (by rw [hnumber]; simp), if_neg hq, if_neg hqq,
      ← List.cons_append, htext, hread]

/-! ### Texts with blanks between their tokens -/

lemma mem_blanks {c : Char} (h : isBlank c = true) : c ∈ [' ', '\x08', '\n', '\r', '\t'] := by
  simpa [isBlank, or_assoc] using h

/-- Nothing is read from a blank. -/
lemma readLexeme_blank {c : Char} (h : isBlank c = true) (cs : List Char) :
    readLexeme c cs = .error ⟨.unknownOperator c, 0⟩ := by
  have hc := mem_blanks h
  fin_cases hc <;> rfl

/-- The end of a text bounds every token, and so does a blank. -/
lemma bounded_of_blank {kind : Kind} {lexeme rest : List Char}
    (h : ∀ c ∈ rest.head?, isBlank c = true) : Bounded kind lexeme rest := by
  have hnot : ∀ c ∈ rest.head?, isNamePart c = false ∧ isDigit c = false ∧ c ≠ '.' ∧ c ≠ '=' := by
    intro c hc
    have hblank := mem_blanks (h c hc)
    fin_cases hblank <;> decide
  cases kind with
  | identifier => exact fun c hc => (hnot c hc).1
  | integer => exact fun c hc => ⟨(hnot c hc).2.1, (hnot c hc).2.2.1⟩
  | decimal => exact fun c hc => (hnot c hc).2.1
  | character => trivial
  | string => trivial
  | operator => exact ⟨fun _ c hc => (hnot c hc).2.1, fun _ c hc => (hnot c hc).2.2.2⟩

/-- No token starts with a blank. -/
lemma Shape.not_isBlank {kind : Kind} {c : Char} {cs : List Char} (h : Shape kind (c :: cs)) :
    isBlank c = false := by
  by_contra hc
  rw [Bool.not_eq_false] at hc
  have hread : readLexeme c (cs ++ []) = .ok (kind, c :: cs) :=
    readLexeme_of_shape h (bounded_of_blank (by simp))
  rw [readLexeme_blank hc] at hread
  cases hread

lemma Shape.ne_nil {kind : Kind} {cs : List Char} (h : Shape kind cs) : cs ≠ [] := by
  cases h with
  | identifier hc hcs => simp
  | integer hs hd => simp [hd.ne_nil]
  | decimal hs hd hf => simp
  | character h => simp
  | string h => simp
  | @operator s h =>
    revert s
    decide

/-- Texts of kinds, each with a blank behind it. -/
def spaced (words : List (Kind × List Char)) : List Char :=
  words.flatMap fun w => w.2 ++ [' ']

lemma scanFrom_skip (cs rest : List Char) :
    ∀ p, scanFrom p cs.length (cs ++ rest) = scanFrom (p.after cs) 0 rest := by
  induction cs with
  | nil =>
    intro p
    rfl
  | cons c cs ih =>
    intro p
    rw [List.length_cons, List.cons_append, scanFrom, ih]
    rfl

/-- A text of tokens with blanks behind them is scanned as these tokens. -/
theorem scanFrom_spaced {words : List (Kind × List Char)} (h : ∀ w ∈ words, Shape w.1 w.2) :
    ∀ p, ∃ tokens, scanFrom p 0 (spaced words) = .ok tokens ∧
      tokens.map (fun t => (t.kind, t.lexeme.toList)) = words := by
  induction words with
  | nil => exact fun p => ⟨[], rfl, rfl⟩
  | cons w words ih =>
    intro p
    obtain ⟨kind, lexeme⟩ := w
    rw [List.forall_mem_cons] at h
    obtain ⟨c, cs, rfl⟩ := List.exists_cons_of_ne_nil h.1.ne_nil
    have hread : readLexeme c (cs ++ ' ' :: spaced words) = .ok (kind, c :: cs) :=
      readLexeme_of_shape h.1 (bounded_of_blank (by simp [isBlank]))
    have htext : spaced ((kind, c :: cs) :: words) = c :: (cs ++ ' ' :: spaced words) := by
      simp [spaced]
    obtain ⟨tokens, hscan, hwords⟩ := ih h.2 (((p.next c).after cs).next ' ')
    have hrest : scanFrom (p.next c) cs.length (cs ++ ' ' :: spaced words) = .ok tokens := by
      rw [scanFrom_skip, scanFrom, if_pos (by decide)]
      exact hscan
    refine ⟨⟨kind, String.ofList (c :: cs), p⟩ :: tokens, ?_, by simp [hwords]⟩
    rw [htext, scanFrom]
    simp only [h.1.not_isBlank, Bool.false_eq_true, if_false, hread, List.length_cons,
      Nat.add_sub_cancel, hrest]

end LetDef.Token
