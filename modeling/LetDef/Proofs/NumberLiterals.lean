import LetDef.Proofs.Parser.LiteralText
import LetDef.Proofs.Parser.Spelling

/-!
# Number literals

What printing shows of an integer is the literal of that integer, and of a decimal with fraction
digits the literal of that decimal, as long as it is written without an exponent. The other way
round, a number literal stands for its exact value and is shown as it is written, but for a plus and
for a zero integer with a sign.
-/

namespace LetDef

open LetDef.Parser LetDef.Grammar
open LetDef.Token (SignPart WholePart FractionPart Shape)

variable {sign ds fs : List Char} {n : Int} {d : Decimal}

/-- A text less a leading plus. -/
def withoutPlus : List Char → List Char
  | '+' :: cs => cs
  | cs => cs

lemma withoutPlus_append (hs : SignPart sign) (hd : ∀ c ∈ ds.head?, Token.isDigit c = true) :
    withoutPlus (sign ++ ds) = Number.signText (sign = ['-']) ++ ds := by
  cases hs with
  | none =>
    change withoutPlus ds = ds
    unfold withoutPlus
    split
    · cases hd '+' rfl
    · rfl
  | sign hc =>
    simp only [Token.isSign, Bool.or_eq_true, decide_eq_true_eq] at hc
    rcases hc with rfl | rfl <;> rfl

/-! ### Integers -/

lemma render?_integer (hn : (Number.digits n.natAbs).length ≤ Number.maxDigits) :
    (Value.integer n).render? =
      some (String.ofList (Number.signText (n < 0) ++ Number.digits n.natAbs)) := by
  rw [Value.render?, Number.integerText?, if_pos ((Number.lt_digitBound_iff _).mpr hn),
    Number.integerText_eq]

/-- An integer without too many digits is shown as a literal that stands for it. -/
lemma integer_rendered (hn : (Number.digits n.natAbs).length ≤ Number.maxDigits) :
    ∃ s, (Value.integer n).render? = some s ∧
      IsLiteral s.toList .integer (.integer n) "integer" := by
  refine ⟨_, render?_integer hn, ?_⟩
  have hliteral := isLiteral_integer (Number.signPart_signText (n < 0))
    (Number.wholePart_digits n.natAbs) hn
  rw [signedNumber_digits] at hliteral
  rwa [String.toList_ofList]

/-- An integer literal is shown as it is written, less a plus and the sign of a zero. -/
lemma render?_signedNumber (hs : SignPart sign) (hd : WholePart ds)
    (hshort : ds.length ≤ Number.maxDigits) :
    (Value.integer (signedNumber sign ds)).render? =
      some (if sign ++ ds = ['-', '0'] then "0" else String.ofList (withoutPlus (sign ++ ds))) := by
  have hdigits := Number.digits_ofDigits hd
  have habs : (signedNumber sign ds).natAbs = Number.ofDigits ds := by
    unfold signedNumber
    split <;> omega
  -- Without leading zeros a zero is a single digit, so the sign is lost in one text alone.
  have hzero : Number.ofDigits ds = 0 ↔ ds = ['0'] := by
    constructor
    · intro h
      rw [h] at hdigits
      exact hdigits.symm
    · rintro rfl
      rfl
  rw [render?_integer (by rwa [habs, hdigits]), habs, hdigits,
    withoutPlus_append hs (WholePart.head_isDigit hd)]
  by_cases hminus : sign = ['-']
  · subst hminus
    by_cases hds : ds = ['0']
    · subst hds
      rfl
    · have hpos : Number.ofDigits ds ≠ 0 := fun h => hds (hzero.mp h)
      have hneg : signedNumber ['-'] ds < 0 := by
        rw [signedNumber, if_pos rfl]
        omega
      have hne : ['-'] ++ ds ≠ ['-', '0'] := fun h => hds (List.cons.inj h).2
      rw [decide_eq_true hneg, if_neg hne, decide_eq_true rfl]
  · have hneg : ¬ signedNumber sign ds < 0 := by
      rw [signedNumber, if_neg hminus]
      omega
    -- The whole part starts with a digit, so a minus can only come from the sign.
    have hne : sign ++ ds ≠ ['-', '0'] := by
      intro h
      cases hs with
      | none =>
        have hfirst := hd.digits '-' (by rw [List.nil_append] at h; rw [h]; simp)
        cases hfirst
      | sign hc => exact hminus (by rw [(List.cons.inj h).1])
    rw [decide_eq_false hneg, if_neg hne, decide_eq_false hminus]

/-! ### Decimals -/

/-- A decimal with fraction digits that is not written with an exponent is shown as a literal that
stands for it. -/
lemma decimal_rendered (he : d.exponent ≤ -1) (ha : -6 ≤ d.adjusted) :
    IsLiteral d.text.toList .decimal (.decimal d) "decimal" := by
  obtain ⟨ds, fs, htext, hds, hfs, hlength, hvalue⟩ :=
    Decimal.pointed_digits d.coefficient (k := (-d.exponent).toNat) (by omega)
  have hliteral := isLiteral_decimal (Number.signPart_signText d.negative) hds hfs
  have hexponent : -(fs.length : Int) = d.exponent := by omega
  rw [hvalue, hexponent, Number.signText_eq] at hliteral
  rwa [Decimal.text_eq, String.toList_ofList, Decimal.unsignedText_positional he ha, htext,
    ← List.append_assoc]

namespace Token

/-- A character that is not blank belongs to a token. -/
lemma Cut.mem_lexeme {p : Position} {text : List Char} {ts : List Token} (h : Cut p text ts)
    {c : Char} (hc : c ∈ text) (hblank : isBlank c = false) : ∃ t ∈ ts, c ∈ t.lexeme.toList := by
  induction h with
  | done => simp at hc
  | @blank p b cs ts hb _ ih =>
    rcases List.mem_cons.mp hc with rfl | hc
    · rw [hb] at hblank
      cases hblank
    · exact ih hc
  | @token p kind lexeme rest ts _ _ _ ih =>
    rcases List.mem_append.mp hc with hc | hc
    · exact ⟨_, List.mem_cons_self, by rwa [String.toList_ofList]⟩
    · obtain ⟨t, ht, hct⟩ := ih hc
      exact ⟨t, List.mem_cons_of_mem _ ht, hct⟩

lemma SignPart.no_exponent (h : SignPart sign) : 'E' ∉ sign := by
  cases h with
  | none => simp
  | sign hc =>
    intro hE
    rw [← List.mem_singleton.mp hE] at hc
    cases hc

lemma no_exponent_of_digits (h : ∀ c ∈ ds, isDigit c = true) : 'E' ∉ ds := by
  intro hE
  have hdigit := h 'E' hE
  cases hdigit

/-- No number token has an exponent. -/
lemma Shape.no_exponent {kind : Kind} {text : List Char} (h : Shape kind text)
    (hkind : kind = .integer ∨ kind = .decimal) : 'E' ∉ text := by
  cases h with
  | integer hs hd => simp [hs.no_exponent, no_exponent_of_digits hd.digits]
  | decimal hs hd hf =>
    simp [hs.no_exponent, no_exponent_of_digits hd.digits, no_exponent_of_digits hf.digits]
  | _ => simp at hkind

end Token

/-- A decimal that is written with an exponent is not shown as a single number. -/
lemma exponent_rendered (ha : d.adjusted < -6) {file : String} {t : Token}
    (hscan : Token.scan file d.text = .ok [t]) : t.kind ≠ .integer ∧ t.kind ≠ .decimal := by
  have hE : 'E' ∈ d.text.toList := by
    rw [Decimal.text_eq, String.toList_ofList]
    exact List.mem_append_right _ (Decimal.mem_unsignedText ha)
  have hcut : Token.Cut (.start file) d.text.toList [t] := Token.cut_of_scanFrom hscan
  obtain ⟨u, hu, hmem⟩ := hcut.mem_lexeme hE rfl
  obtain rfl := List.mem_singleton.mp hu
  have hshape := Token.scan_shape hscan u List.mem_cons_self
  exact ⟨fun hk => hshape.no_exponent (.inl hk) hmem, fun hk => hshape.no_exponent (.inr hk) hmem⟩

/-- A decimal literal is shown as it is written, less a plus. -/
lemma text_ofDigits (hs : SignPart sign) (hd : WholePart ds) (hf : FractionPart fs)
    (ha : -6 ≤ Decimal.adjusted ⟨sign = ['-'], Number.ofDigits (ds ++ fs), -fs.length⟩) :
    Decimal.text ⟨sign = ['-'], Number.ofDigits (ds ++ fs), -fs.length⟩ =
      String.ofList (withoutPlus (sign ++ ds ++ '.' :: fs)) := by
  have hpos := List.length_pos_iff.mpr hf.ne_nil
  have hhead : ∀ c ∈ (ds ++ '.' :: fs).head?, Token.isDigit c = true := by
    intro c hc
    obtain ⟨e, es, rfl⟩ := List.exists_cons_of_ne_nil hd.ne_nil
    exact WholePart.head_isDigit hd c hc
  rw [Decimal.text_eq, Decimal.unsignedText_positional (by simp only; omega) ha]
  simp only [neg_neg, Int.toNat_natCast]
  rw [Decimal.pointed_ofDigits hd hf, List.append_assoc, withoutPlus_append hs hhead]

/-! ### Number tokens -/

variable {t : Token}

/-- A decimal token stands for its exact value. -/
lemma decimal_reread (hshape : Shape t.kind t.lexeme.toList) (hkind : t.kind = .decimal) :
    ∃ sign ds fs d, t.lexeme.toList = sign ++ ds ++ '.' :: fs ∧ SignPart sign ∧ WholePart ds ∧
      FractionPart fs ∧ ReadAs t (.decimal d) "decimal" ∧
      d.toRat = (if sign = ['-'] then -1 else 1) *
        (Number.wholeValue ds + Number.fractionValue fs) ∧ d.exponent = -fs.length ∧
      (-6 ≤ d.adjusted →
        (Value.decimal d).render? = some (String.ofList (withoutPlus t.lexeme.toList))) := by
  have hread : ∀ {v}, Literal t v "decimal" → ReadAs t v "decimal" :=
    readAs_of_literal hshape (isShort_of_kind (by simp [hkind]))
  generalize htext : t.lexeme.toList = text at hshape
  rw [hkind] at hshape
  cases hshape with
  | @decimal sign ds fs hs hd hf =>
    refine ⟨sign, ds, fs, _, rfl, hs, hd, hf, hread (.decimal hkind htext hs hd hf), ?_, rfl, ?_⟩
    · rw [Decimal.toRat_ofDigits]
      simp only [decide_eq_true_eq]
    · intro ha
      rw [Value.render?, text_ofDigits hs hd hf ha]

/-- An integer token without too many digits is shown as it is written. -/
lemma integer_reread (hshape : Shape t.kind t.lexeme.toList) (hkind : t.kind = .integer)
    (hshort : (t.lexeme.toList.filter Char.isDigit).length ≤ Number.maxDigits) :
    ∃ n, ReadAs t (.integer n) "integer" ∧ (Value.integer n).render? =
      some (if t.lexeme = "-0" then "0" else String.ofList (withoutPlus t.lexeme.toList)) := by
  have hread : ∀ {v}, Literal t v "integer" → ReadAs t v "integer" :=
    readAs_of_literal hshape fun _ => hshort
  have hzero : t.lexeme = "-0" ↔ t.lexeme.toList = ['-', '0'] := String.toList_inj.symm
  simp only [hzero]
  generalize htext : t.lexeme.toList = text at hshape hshort
  rw [hkind] at hshape
  cases hshape with
  | integer hs hd =>
    rw [count_digits hs hd] at hshort
    exact ⟨_, hread (.integer hkind htext hs hd), render?_signedNumber hs hd hshort⟩

/-- Integers and decimals survive being shown and read again, and number tokens being read and shown
again: within the limit on digits, and without an exponent. -/
theorem numbers_survive_text :
    (∀ n : Int, (Number.digits n.natAbs).length ≤ Number.maxDigits →
      ∃ s, (Value.integer n).render? = some s ∧
        IsLiteral s.toList .integer (.integer n) "integer") ∧
    (∀ d : Decimal, d.exponent ≤ -1 → ∃ s, (Value.decimal d).render? = some s ∧
      (-6 ≤ d.adjusted → IsLiteral s.toList .decimal (.decimal d) "decimal") ∧
      (d.adjusted < -6 → ∀ file t, Token.scan file s = .ok [t] →
        t.kind ≠ .integer ∧ t.kind ≠ .decimal)) ∧
    ∀ file source tokens, Token.scan file source = .ok tokens → ∀ t ∈ tokens,
      (t.kind = .decimal → ∃ sign ds fs d, t.lexeme.toList = sign ++ ds ++ '.' :: fs ∧
        SignPart sign ∧ WholePart ds ∧ FractionPart fs ∧ ReadAs t (.decimal d) "decimal" ∧
        d.toRat = (if sign = ['-'] then -1 else 1) *
          (Number.wholeValue ds + Number.fractionValue fs) ∧ d.exponent = -fs.length ∧
        (-6 ≤ d.adjusted →
          (Value.decimal d).render? = some (String.ofList (withoutPlus t.lexeme.toList)))) ∧
      (t.kind = .integer → (t.lexeme.toList.filter Char.isDigit).length ≤ Number.maxDigits →
        ∃ n, ReadAs t (.integer n) "integer" ∧ (Value.integer n).render? =
          some (if t.lexeme = "-0" then "0"
            else String.ofList (withoutPlus t.lexeme.toList))) := by
  refine ⟨fun n => integer_rendered, fun d he => ⟨d.text, rfl, decimal_rendered he, ?_⟩, ?_⟩
  · exact fun ha file t => exponent_rendered ha
  · intro file source tokens hscan t ht
    have hshape := Token.scan_shape hscan t ht
    exact ⟨decimal_reread hshape, integer_reread hshape⟩

/-- A negative zero with a scale, a small decimal, and tokens with signs that are not shown. -/
theorem numbers_survive_text_signs :
    IsLiteral "-0.000".toList .decimal (.decimal ⟨true, 0, -3⟩) "decimal" ∧
    IsLiteral "-12".toList .integer (.integer (-12)) "integer" ∧
    (∀ file t, Token.scan file "1E-7" = .ok [t] → t.kind ≠ .integer ∧ t.kind ≠ .decimal) ∧
    ∃ t u, Token.scan "" "+1.50 -0" = .ok [t, u] ∧
      (∃ d, ReadAs t (.decimal d) "decimal" ∧
        (-6 ≤ d.adjusted → (Value.decimal d).render? = some "1.50")) ∧
      ∃ n, ReadAs u (.integer n) "integer" ∧ (Value.integer n).render? = some "0" := by
  obtain ⟨hintegers, hdecimals, htokens⟩ := numbers_survive_text
  have hshown : (Value.decimal ⟨true, 0, -3⟩).render? = some "-0.000" ∧
      (Value.integer (-12)).render? = some "-12" ∧
      (Value.decimal ⟨false, 1, -7⟩).render? = some "1E-7" := by decide +kernel
  obtain ⟨t, u, hscan, ht, hu⟩ : ∃ t u, Token.scan "" "+1.50 -0" = .ok [t, u] ∧
      (t.kind, t.lexeme) = (.decimal, "+1.50") ∧ (u.kind, u.lexeme) = (.integer, "-0") :=
    ⟨_, _, rfl, by decide +kernel⟩
  obtain ⟨htkind, htext⟩ := Prod.mk.inj ht
  obtain ⟨hukind, hutext⟩ := Prod.mk.inj hu
  refine ⟨?_, ?_, ?_, t, u, hscan, ?_, ?_⟩
  · obtain ⟨s, hs, hliteral, -⟩ := hdecimals ⟨true, 0, -3⟩ (by decide)
    obtain rfl := Option.some.inj (hshown.1.symm.trans hs)
    exact hliteral (by decide)
  · obtain ⟨s, hs, hliteral⟩ := hintegers (-12) (by decide)
    obtain rfl := Option.some.inj (hshown.2.1.symm.trans hs)
    exact hliteral
  · obtain ⟨s, hs, -, hexponent⟩ := hdecimals ⟨false, 1, -7⟩ (by decide)
    obtain rfl := Option.some.inj (hshown.2.2.symm.trans hs)
    exact hexponent (by decide)
  · obtain ⟨_, _, _, d, -, -, -, -, hread, -, -, hrender⟩ :=
      (htokens "" _ _ hscan t List.mem_cons_self).1 htkind
    rw [htext] at hrender
    exact ⟨d, hread, hrender⟩
  · have hlong : (u.lexeme.toList.filter Char.isDigit).length ≤ Number.maxDigits := by
      rw [hutext]
      decide
    obtain ⟨n, hread, hrender⟩ :=
      (htokens "" _ _ hscan u (List.mem_cons_of_mem _ List.mem_cons_self)).2 hukind hlong
    rw [hutext] at hrender
    exact ⟨n, hread, hrender⟩

end LetDef
