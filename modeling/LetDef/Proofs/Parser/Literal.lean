import LetDef.Proofs.Number.Text
import LetDef.Proofs.Parser.Grammar
import Mathlib.Data.List.TakeWhile

/-!
# The values of literal tokens

The parsers of literals yield what the grammar takes their tokens to stand for. Only an integer of
too many digits has no literal.
-/

namespace LetDef.Parser

open LetDef.Token (SignPart WholePart FractionPart Spells)
open LetDef.Number (isDigit_eq all_isDigit splitSign_append)

variable {ts rest : List Token} {t : Token} {n : Node}

/-! ### Numbers -/

lemma readInteger?_eq {sign ds : List Char} {s : String} (ht : s.toList = sign ++ ds)
    (hs : SignPart sign) (hd : WholePart ds) :
    Number.readInteger? s =
      if Number.maxDigits < ds.length then none
      else some (Grammar.signedNumber sign ds) := by
  have hall : ds.all Char.isDigit = true := List.all_eq_true.mpr (all_isDigit hd.digits)
  have hne : ds.isEmpty = false := by
    rw [List.isEmpty_eq_false_iff]
    exact hd.ne_nil
  unfold Number.readInteger?
  rw [ht, splitSign_append hs (WholePart.head_isDigit hd)]
  by_cases hlong : Number.maxDigits < ds.length
  · simp [hlong]
  · by_cases hm : sign = ['-'] <;> simp [Grammar.signedNumber, hall, hne, hlong, hm]

lemma ofText?_eq {sign ds fs : List Char} {s : String} (ht : s.toList = sign ++ ds ++ '.' :: fs)
    (hs : SignPart sign) (hd : WholePart ds) (hf : FractionPart fs) :
    Decimal.ofText? s =
      some ⟨sign = ['-'], Number.ofDigits (ds ++ fs), -fs.length⟩ := by
  have hsplit : Number.splitSign s.toList = (decide (sign = ['-']), ds ++ '.' :: fs) := by
    rw [ht, List.append_assoc]
    refine splitSign_append hs ?_
    intro c hc
    obtain ⟨d, ds', rfl⟩ := List.exists_cons_of_ne_nil hd.ne_nil
    exact WholePart.head_isDigit hd c hc
  have hpoint : ∀ c ∈ ('.' :: fs).head?, c.isDigit = false := by simp
  have hwhole : (ds ++ '.' :: fs).takeWhile Char.isDigit = ds :=
    Token.takeWhile_append_of_head (all_isDigit hd.digits) hpoint
  have hrest : (ds ++ '.' :: fs).dropWhile Char.isDigit = '.' :: fs :=
    Token.dropWhile_append_of_head (all_isDigit hd.digits) hpoint
  have hfraction : fs.takeWhile Char.isDigit = fs :=
    List.takeWhile_eq_self_iff.mpr (all_isDigit hf.digits)
  have hend : fs.dropWhile Char.isDigit = [] :=
    List.dropWhile_eq_nil_iff.mpr (all_isDigit hf.digits)
  unfold Decimal.ofText?
  rw [hsplit]
  simp only [hwhole, hrest, hfraction, hend]
  have hne : ds.isEmpty = false := by
    rw [List.isEmpty_eq_false_iff]
    exact hd.ne_nil
  simp [hne, Decimal.readExponent?]

/-! ### Quoted texts -/

lemma decode_spells {quote : Char} {body cs : List Char} (h : Spells quote body cs) :
    decode body = .ok cs := by
  induction h with
  | nil => rfl
  | @plain c body cs hq hb hl h ih =>
    cases body with
    | nil =>
      cases h
      rfl
    | cons d body =>
      rw [decode, ih]
      · rfl
      · exact List.cons_ne_nil d body
      · exact fun e rest hc _ => hb hc
  | @escape e c body cs he h ih =>
    rw [decode, he, ih]
    rfl

/-- The text between the quotes of a token that spells characters is those characters. -/
lemma yields_unquote {quote : Char} {body cs ds : List Char}
    (ht : t.lexeme.toList = quote :: body ++ [quote]) (h : Spells quote body cs) :
    Yields (unquote t) ts ds rest ↔ ds = cs ∧ rest = ts := by
  have hbody : (t.lexeme.toList.drop 1).dropLast = body := by
    rw [ht]
    simp
  unfold unquote
  rw [hbody, decode_spells h]
  exact yields_pure

/-! ### The literals of the grammar -/

/-- Whether a token is no integer of too many digits; signs do not count. -/
def IsShort (t : Token) : Prop :=
  t.kind = .integer → (t.lexeme.toList.filter Char.isDigit).length ≤ Number.maxDigits

/-- The parser of the literals of a kind of token. -/
def literalOfKind? (t : Token) : Option (Parse Node) :=
  match t.kind with
  | .integer => some (integerLiteral t)
  | .decimal => some (decimalLiteral t)
  | .character => some (characterLiteral t)
  | .string => some (stringLiteral t)
  | _ => none

/-- Whether a token of a literal's kind has a value does not depend on the tokens behind it. -/
lemma literal_yields_or_halts {p : Parse Node} (hp : literalOfKind? t = some p) :
    (∃ n, ∀ ts, p.run ts = .ok (n, ts)) ∨ ∃ e, e ≠ .tooDeep ∧ ∀ ts, p.run ts = .error e := by
  unfold literalOfKind? at hp
  split at hp <;> cases hp
  · unfold integerLiteral
    split
    · exact .inl ⟨_, fun _ => rfl⟩
    · exact .inr ⟨.unreadableInteger, nofun, fun _ => rfl⟩
  · unfold decimalLiteral
    split
    · exact .inl ⟨_, fun _ => rfl⟩
    · exact .inr ⟨.unreadableDecimal, nofun, fun _ => rfl⟩
  · unfold characterLiteral unquote
    split
    · next cs _ =>
      rcases cs with _ | ⟨c, _ | ⟨d, cs⟩⟩
      · exact .inr ⟨.fault (.invalidCharacter t), nofun, fun _ => rfl⟩
      · exact .inl ⟨_, fun _ => rfl⟩
      · exact .inr ⟨.fault (.invalidCharacter t), nofun, fun _ => rfl⟩
    · next c _ => exact .inr ⟨.fault (.unknownEscape c t), nofun, fun _ => rfl⟩
  · unfold stringLiteral unquote
    split
    · exact .inl ⟨_, fun _ => rfl⟩
    · next c _ => exact .inr ⟨.fault (.unknownEscape c t), nofun, fun _ => rfl⟩

lemma count_digits {sign ds : List Char} (hs : SignPart sign) (hd : WholePart ds) :
    (sign ++ ds).filter Char.isDigit = ds := by
  have hsign : sign.filter Char.isDigit = [] := by
    cases hs with
    | none => rfl
    | sign hc => simp [← isDigit_eq, Token.not_isDigit_of_isSign hc]
  rw [List.filter_append, hsign, List.nil_append, List.filter_eq_self]
  exact all_isDigit hd.digits

lemma yields_integerLiteral {sign ds : List Char} (ht : t.lexeme.toList = sign ++ ds)
    (hs : SignPart sign) (hd : WholePart ds) :
    Yields (integerLiteral t) ts n rest ↔
      ds.length ≤ Number.maxDigits ∧
        n = .literal (markOf t) (.value (.integer (Grammar.signedNumber sign ds))) "integer" ∧
        rest = ts := by
  unfold integerLiteral
  rw [readInteger?_eq ht hs hd]
  by_cases hlong : Number.maxDigits < ds.length
  · simp only [if_pos hlong, not_yields_throw, false_iff, not_and]
    intro h
    omega
  · simp only [if_neg hlong, yields_pure, literalAt]
    constructor
    · exact fun h => ⟨by omega, h⟩
    · exact fun h => h.2

lemma yields_decimalLiteral {sign ds fs : List Char}
    (ht : t.lexeme.toList = sign ++ ds ++ '.' :: fs) (hs : SignPart sign) (hd : WholePart ds)
    (hf : FractionPart fs) :
    Yields (decimalLiteral t) ts (.literal (markOf t) (.value (.decimal
      ⟨sign = ['-'], Number.ofDigits (ds ++ fs), -fs.length⟩)) "decimal") ts := by
  unfold decimalLiteral
  rw [ofText?_eq ht hs hd hf]
  exact yields_pure.mpr ⟨rfl, rfl⟩

lemma yields_characterLiteral {body : List Char} {c : Char}
    (ht : t.lexeme.toList = '\'' :: body ++ ['\'']) (h : Spells '\'' body [c]) :
    Yields (characterLiteral t) ts
      (.literal (markOf t) (.value (.text c.toString)) "character") ts :=
  yields_bind.mpr ⟨_, ts, (yields_unquote ht h).mpr ⟨rfl, rfl⟩, yields_pure.mpr ⟨rfl, rfl⟩⟩

lemma yields_stringLiteral {body cs : List Char}
    (ht : t.lexeme.toList = '"' :: body ++ ['"']) (h : Spells '"' body cs) :
    Yields (stringLiteral t) ts
      (.literal (markOf t) (.value (.text (String.ofList cs))) "string") ts :=
  yields_bind.mpr ⟨_, ts, (yields_unquote ht h).mpr ⟨rfl, rfl⟩, yields_pure.mpr ⟨rfl, rfl⟩⟩

/-- What the parser of a literal reads is the literal of the token. -/
theorem literal_of_yields (hshape : Token.Shape t.kind t.lexeme.toList) {p : Parse Node}
    (hp : literalOfKind? t = some p) (h : Yields p ts n rest) :
    rest = ts ∧ ∃ v sort, Grammar.Literal t v sort ∧ n = .literal (markOf t) (.value v) sort := by
  generalize htext : t.lexeme.toList = text at hshape
  generalize hkind : t.kind = kind at hshape
  unfold literalOfKind? at hp
  rw [hkind] at hp
  cases hshape with
  | identifier => cases hp
  | integer hs hd =>
    cases hp
    obtain ⟨_, rfl, rfl⟩ := (yields_integerLiteral htext hs hd).mp h
    exact ⟨rfl, _, _, .integer hkind htext hs hd, rfl⟩
  | decimal hs hd hf =>
    cases hp
    unfold decimalLiteral at h
    rw [ofText?_eq htext hs hd hf] at h
    obtain ⟨rfl, rfl⟩ := yields_pure.mp h
    exact ⟨rfl, _, _, .decimal hkind htext hs hd hf, rfl⟩
  | character hbody =>
    cases hp
    obtain ⟨cs, us, hcs, hn⟩ := yields_bind.mp h
    obtain ⟨rfl, rfl⟩ := (yields_unquote htext hbody).mp hcs
    obtain ⟨rfl, rfl⟩ := yields_pure.mp hn
    exact ⟨rfl, _, _, .character hkind htext hbody, rfl⟩
  | string hbody =>
    cases hp
    obtain ⟨cs, us, hcs, hn⟩ := yields_bind.mp h
    obtain ⟨rfl, rfl⟩ := (yields_unquote htext hbody).mp hcs
    obtain ⟨rfl, rfl⟩ := yields_pure.mp hn
    exact ⟨rfl, _, _, .string hkind htext hbody, rfl⟩
  | operator => cases hp

/-- A token that is no word of the grammar is read as the literal that it stands for. -/
theorem yields_of_literal {v : Value} {sort : String} (hshort : IsShort t)
    (h : Grammar.Literal t v sort) :
    t.lexeme = "NIL" ∧ v = .nil ∧ sort = "nil" ∨
    t.lexeme = "TRUE" ∧ v = .boolean true ∧ sort = "boolean" ∨
    t.lexeme = "FALSE" ∧ v = .boolean false ∧ sort = "boolean" ∨
    ∃ p, literalOfKind? t = some p ∧
      ∀ ts, Yields p ts (.literal (markOf t) (.value v) sort) ts := by
  cases h with
  | nil h => exact .inl ⟨h, rfl, rfl⟩
  | yes h => exact .inr (.inl ⟨h, rfl, rfl⟩)
  | no h => exact .inr (.inr (.inl ⟨h, rfl, rfl⟩))
  | integer hk ht hs hd =>
    refine .inr (.inr (.inr ⟨integerLiteral t, by rw [literalOfKind?, hk], fun ts => ?_⟩))
    refine (yields_integerLiteral ht hs hd).mpr ⟨?_, rfl, rfl⟩
    have := hshort hk
    rwa [ht, count_digits hs hd] at this
  | decimal hk ht hs hd hf =>
    exact .inr (.inr (.inr ⟨decimalLiteral t, by rw [literalOfKind?, hk],
      fun ts => yields_decimalLiteral ht hs hd hf⟩))
  | character hk ht hbody =>
    exact .inr (.inr (.inr ⟨characterLiteral t, by rw [literalOfKind?, hk],
      fun ts => yields_characterLiteral ht hbody⟩))
  | string hk ht hbody =>
    exact .inr (.inr (.inr ⟨stringLiteral t, by rw [literalOfKind?, hk],
      fun ts => yields_stringLiteral ht hbody⟩))

/-- Of the literals that a text may have, only integers of too many digits have no value. -/
lemma literal_halts {p : Parse Node} {e : Halt} (hshape : Token.Shape t.kind t.lexeme.toList)
    (hp : literalOfKind? t = some p) (he : ∀ ts, p.run ts = .error e) :
    e = .unreadableInteger ∧ t.kind = .integer ∧ ¬ IsShort t := by
  -- The parser of the token always stops, so it is enough to see which of them yield.
  have hnever : ∀ n, ¬ Yields p [] n [] := by
    intro n hn
    rw [Yields, he []] at hn
    cases hn
  generalize htext : t.lexeme.toList = text at hshape
  generalize hkind : t.kind = kind at hshape
  unfold literalOfKind? at hp
  rw [hkind] at hp
  cases hshape with
  | identifier => cases hp
  | @integer sign ds hs hd =>
    cases hp
    by_cases hlong : Number.maxDigits < ds.length
    · have hrun : (integerLiteral t).run [] = .error .unreadableInteger := by
        unfold integerLiteral
        rw [readInteger?_eq htext hs hd, if_pos hlong]
        rfl
      rw [he []] at hrun
      cases hrun
      refine ⟨rfl, rfl, fun hshort => ?_⟩
      have hdigits := hshort hkind
      rw [htext, count_digits hs hd] at hdigits
      omega
    · exact absurd ((yields_integerLiteral htext hs hd).mpr ⟨by omega, rfl, rfl⟩) (hnever _)
  | decimal hs hd hf =>
    cases hp
    exact absurd (yields_decimalLiteral htext hs hd hf) (hnever _)
  | character hbody =>
    cases hp
    exact absurd (yields_characterLiteral htext hbody) (hnever _)
  | string hbody =>
    cases hp
    exact absurd (yields_stringLiteral htext hbody) (hnever _)
  | operator => cases hp

end LetDef.Parser
