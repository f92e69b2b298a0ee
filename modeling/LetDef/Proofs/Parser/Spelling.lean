import LetDef.Proofs.Number.Text
import LetDef.Proofs.Parser.Literal
import LetDef.Proofs.Syntax.WellFormed

/-!
# Spelling literals

Every literal's data can be written as the text of a token: integers and decimals by their digits,
characters and strings with escapes where a quote, a backslash or a line end would not do.
-/

namespace LetDef

/-- The text has the shape of its kind and, as an integer, not too many digits. -/
structure Word.Valid (w : Word) : Prop where
  shape : Token.Shape w.1 w.2.toList
  short : w.1 = .integer → (w.2.toList.filter Char.isDigit).length ≤ Number.maxDigits

/-- Every token that is the word denotes the value. -/
def Word.Spells (w : Word) (v : Value) (sort : String) : Prop :=
  ∀ t : Token, t.kind = w.1 → t.lexeme = w.2 → Grammar.Literal t v sort

/-! ### Numbers -/

/-- An integer is the number of its sign and its digits. -/
lemma signedNumber_digits (n : Int) :
    Grammar.signedNumber (Number.signText (n < 0)) (Number.digits n.natAbs) = n := by
  rw [Grammar.signedNumber, Number.ofDigits_digits]
  by_cases hn : n < 0
  · rw [decide_eq_true hn]
    change -(n.natAbs : Int) = n
    omega
  · rw [decide_eq_false hn]
    change (n.natAbs : Int) = n
    omega

/-- An integer without too many digits is the value of a token. -/
lemma exists_integer {n : Int} (hn : n.natAbs < Number.digitBound) :
    ∃ w : Word, w.Valid ∧ w.Spells (.integer n) "integer" := by
  have hsign := Number.signPart_signText (n < 0)
  have hds := Number.wholePart_digits n.natAbs
  refine ⟨(.integer, String.ofList (Number.signText (n < 0) ++ Number.digits n.natAbs)),
    ⟨?_, ?_⟩, ?_⟩
  · rw [String.toList_ofList]
    exact .integer hsign hds
  · intro _
    rw [String.toList_ofList, Parser.count_digits hsign hds]
    exact (Number.lt_digitBound_iff _).mp hn
  · intro t hk ht
    have hliteral := Grammar.Literal.integer hk (by rw [ht, String.toList_ofList]) hsign hds
    rwa [signedNumber_digits] at hliteral

/-- A decimal with a fraction is the value of a token. -/
lemma exists_decimal {d : Decimal} (hd : d.exponent ≤ -1) :
    ∃ w : Word, w.Valid ∧ w.Spells (.decimal d) "decimal" := by
  have hsign := Number.signPart_signText d.negative
  obtain ⟨ds, fs, -, hds, hfs, hlength, hvalue⟩ :=
    Decimal.pointed_digits d.coefficient (k := (-d.exponent).toNat) (by omega)
  have hexponent : -(fs.length : Int) = d.exponent := by omega
  refine ⟨(.decimal, String.ofList (Number.signText d.negative ++ ds ++ '.' :: fs)),
    ⟨?_, by simp⟩, ?_⟩
  · rw [String.toList_ofList]
    exact .decimal hsign hds hfs
  · intro t hk ht
    have hliteral := Grammar.Literal.decimal hk (by rw [ht, String.toList_ofList]) hsign hds hfs
    rwa [hvalue, hexponent, Number.signText_eq] at hliteral

/-! ### Characters and strings -/

section

open Token (Spells unescape? isLineEnd)

/-- The character that stands behind a backslash for `c`. -/
def escapeLetter? : Char → Option Char
  | '\x08' => some 'b'
  | '\n' => some 'n'
  | '\r' => some 'r'
  | '\t' => some 't'
  | '\'' => some '\''
  | '"' => some '"'
  | '\\' => some '\\'
  | _ => none

/-- The characters that have to be escaped between two quotes. -/
def mustEscape (quote c : Char) : Bool :=
  c = quote || c = '\\' || isLineEnd c

/-- A character between two quotes. It is escaped if it has to be, and if it can be and that is
wanted. -/
def escapeChar (quote : Char) (wanted : Bool) (c : Char) : List Char :=
  if mustEscape quote c || wanted then
    match escapeLetter? c with
    | some e => ['\\', e]
    | none => [c]
  else [c]

/-- The characters in quotes, each with its own choice where an escape is not needed. -/
def quoted (quote : Char) (cs : List (Char × Bool)) : List Char :=
  quote :: (cs.flatMap fun c => escapeChar quote c.2 c.1) ++ [quote]

variable {quote c e : Char}

lemma unescape?_escapeLetter (h : escapeLetter? c = some e) : unescape? e = some c := by
  unfold escapeLetter? at h
  split at h <;> cases h <;> rfl

/-- What has to be escaped can be. -/
lemma not_mustEscape (hq : quote = '\'' ∨ quote = '"') (h : escapeLetter? c = none) :
    mustEscape quote c = false := by
  by_contra hc
  rw [Bool.not_eq_false, mustEscape, isLineEnd] at hc
  simp only [Bool.or_eq_true, decide_eq_true_eq] at hc
  rcases hc with (rfl | rfl) | rfl | rfl
  · rcases hq with rfl | rfl <;> cases h
  · cases h
  · cases h
  · cases h

lemma spells_plain {body cs : List Char} (hc : mustEscape quote c = false)
    (h : Spells quote body cs) : Spells quote (c :: body) (c :: cs) := by
  simp only [mustEscape, Bool.or_eq_false_iff, decide_eq_false_iff_not] at hc
  exact .plain hc.1.1 hc.1.2 hc.2 h

/-- A character in front of a body stands for itself, escaped or not. -/
lemma spells_escapeChar (hq : quote = '\'' ∨ quote = '"') (wanted : Bool) {body cs : List Char}
    (h : Spells quote body cs) : Spells quote (escapeChar quote wanted c ++ body) (c :: cs) := by
  unfold escapeChar
  split
  · split
    · next e he => exact .escape (unescape?_escapeLetter he) h
    · next he => exact spells_plain (not_mustEscape hq he) h
  · next hplain =>
    rw [Bool.or_eq_true, not_or, Bool.not_eq_true] at hplain
    exact spells_plain hplain.1 h

lemma spells_escaped (hq : quote = '\'' ∨ quote = '"') (cs : List (Char × Bool)) :
    Spells quote (cs.flatMap fun c => escapeChar quote c.2 c.1) (cs.map Prod.fst) := by
  induction cs with
  | nil => exact .nil
  | cons c cs ih => exact spells_escapeChar hq c.2 ih

end

/-- A keyword is spelt like a name. -/
lemma shape_keyword {s : String} (hs : s ∈ keywords) : Token.Shape .identifier s.toList := by
  have hall : ∀ s ∈ keywords, s.toList.head?.map Token.isNameStart = some true ∧
      s.toList.tail.all Token.isNamePart = true := by decide
  obtain ⟨hhead, htail⟩ := hall s hs
  cases hcs : s.toList with
  | nil =>
    rw [hcs] at hhead
    cases hhead
  | cons c cs =>
    rw [hcs] at hhead htail
    exact .identifier (Option.some.inj hhead) (List.all_eq_true.1 htail)

/-- The data of every literal is the value of a token. -/
theorem exists_word {v : Value} {sort : String} (h : v.Denoted sort)
    (hshort : ∀ n, v = .integer n → n.natAbs < Number.digitBound) :
    ∃ w : Word, w.Valid ∧ w.Spells v sort := by
  cases h with
  | nil =>
    refine ⟨(.identifier, "NIL"), ⟨shape_keyword (by decide), by simp⟩, ?_⟩
    intro t hk ht
    exact .nil ht
  | boolean b =>
    cases b with
    | true =>
      refine ⟨(.identifier, "TRUE"), ⟨shape_keyword (by decide), by simp⟩, ?_⟩
      intro t hk ht
      exact .yes ht
    | false =>
      refine ⟨(.identifier, "FALSE"), ⟨shape_keyword (by decide), by simp⟩, ?_⟩
      intro t hk ht
      exact .no ht
  | integer n => exact exists_integer (hshort n rfl)
  | decimal h => exact exists_decimal h
  -- The plain spelling, in which only what must be escaped is.
  | character c =>
    have hbody := spells_escaped (.inl rfl) [(c, false)]
    refine ⟨(.character, String.ofList (quoted '\'' [(c, false)])), ⟨?_, by simp⟩, ?_⟩
    · rw [String.toList_ofList]
      exact .character hbody
    · intro t hk ht
      exact .character hk (by rw [ht, String.toList_ofList]; rfl) hbody
  | string s =>
    have hbody := spells_escaped (.inr rfl) (s.toList.map fun c => (c, false))
    have hcs : (s.toList.map fun c => (c, false)).map Prod.fst = s.toList := by
      rw [List.map_map]
      exact List.map_id s.toList
    rw [hcs] at hbody
    refine ⟨(.string, String.ofList (quoted '"' (s.toList.map fun c => (c, false)))),
      ⟨?_, by simp⟩, ?_⟩
    · rw [String.toList_ofList]
      exact .string hbody
    · intro t hk ht
      rw [← String.ofList_toList (s := s)]
      exact .string hk (by rw [ht, String.toList_ofList]; rfl) hbody

end LetDef
