import LetDef.Proofs.Number.Rational
import LetDef.Proofs.Text.Quoting
import LetDef.Proofs.Token.Shape

/-!
# Numbers as text

Digits without redundant zeros and natural numbers are in correspondence. A decimal that is written
with a point has such digits before it, as many digits behind it as its exponent says, and all of
them together are its coefficient.
-/

namespace LetDef

open Token (SignPart WholePart FractionPart)

variable {c : Char} {ds fs cs : List Char}

/-! ### Whole parts -/

namespace Token

lemma WholePart.left (h : WholePart (ds ++ fs)) (hne : ds ≠ []) : WholePart ds where
  ne_nil := hne
  digits := fun c hc => h.digits c (List.mem_append_left fs hc)
  no_redundant_zero := by
    rintro d rest rfl
    exact h.no_redundant_zero d (rest ++ fs) rfl

lemma WholePart.eq_cons (h : WholePart ds) : ∃ x xs, ds = x :: xs ∧ isDigit x = true := by
  obtain ⟨x, xs, rfl⟩ := List.exists_cons_of_ne_nil h.ne_nil
  exact ⟨x, xs, rfl, h.digits x (List.mem_cons_self ..)⟩

lemma WholePart.head_isDigit (h : WholePart ds) : ∀ c ∈ ds.head?, isDigit c = true :=
  fun c hc => h.digits c (List.mem_of_head? hc)

lemma WholePart.append (h : WholePart ds) (hzero : ds ≠ ['0'])
    (hfs : ∀ c ∈ fs, isDigit c = true) : WholePart (ds ++ fs) where
  ne_nil := by simp [h.ne_nil]
  digits := by
    intro c hc
    rcases List.mem_append.mp hc with hc | hc
    · exact h.digits c hc
    · exact hfs c hc
  no_redundant_zero := by
    intro d rest hstart
    rcases ds with _ | ⟨c, _ | ⟨e, ds⟩⟩
    · exact h.ne_nil rfl
    · exact hzero (by rw [(List.cons.inj hstart).1])
    · obtain ⟨rfl, -⟩ := List.cons.inj hstart
      exact h.no_redundant_zero e ds rfl

end Token

/-! ### Digits -/

namespace Number

lemma isDigit_eq (c : Char) : Token.isDigit c = c.isDigit := by
  unfold Token.isDigit Char.isDigit
  rw [Bool.eq_iff_iff]
  simp [Char.le_def]

lemma all_isDigit (h : ∀ c ∈ ds, Token.isDigit c = true) : ∀ c ∈ ds, c.isDigit = true := by
  intro c hc
  rw [← isDigit_eq]
  exact h c hc

/-- Where digits follow a sign part, the sign is what is split off. -/
lemma splitSign_append {sign : List Char} (hs : SignPart sign)
    (hd : ∀ c ∈ ds.head?, Token.isDigit c = true) :
    splitSign (sign ++ ds) = (decide (sign = ['-']), ds) := by
  cases hs with
  | none =>
    unfold splitSign
    split
    · next heq =>
      have := hd '-' (by rw [List.nil_append] at heq; rw [heq]; rfl)
      cases this
    · next heq =>
      have := hd '+' (by rw [List.nil_append] at heq; rw [heq]; rfl)
      cases this
    · rfl
  | sign hc =>
    simp only [Token.isSign, Bool.or_eq_true, decide_eq_true_eq] at hc
    rcases hc with rfl | rfl <;> rfl

lemma ofDigits_append (xs ys : List Char) :
    ofDigits (xs ++ ys) = ofDigits xs * 10 ^ ys.length + ofDigits ys := by
  unfold ofDigits
  have h : ∀ ys : List Char, ∀ a, ys.foldl (fun n c => 10 * n + (c.toNat - '0'.toNat)) a =
      a * 10 ^ ys.length + ys.foldl (fun n c => 10 * n + (c.toNat - '0'.toNat)) 0 := by
    intro ys
    induction ys with
    | nil => intro a; simp
    | cons c ys ih =>
      intro a
      rw [List.foldl_cons, List.foldl_cons, ih, ih (10 * 0 + _), List.length_cons, pow_succ]
      ring
  rw [List.foldl_append, h]

lemma ofDigits_singleton_lt (h : Token.isDigit c = true) : ofDigits [c] < 10 := by
  have hc := (Token.isDigit_iff.mp h).2
  rw [Char.le_def, UInt32.le_iff_toNat_le] at hc
  change 10 * 0 + (c.toNat - 48) < 10
  change c.toNat ≤ 57 at hc
  omega

lemma digitChar_ofDigits (h : Token.isDigit c = true) : Nat.digitChar (ofDigits [c]) = c := by
  have hc := (Token.isDigit_iff.mp h).1
  rw [Char.le_def, UInt32.le_iff_toNat_le] at hc
  apply Char.toNat_inj.mp
  rw [Nat.toNat_digitChar_of_lt_ten (ofDigits_singleton_lt h)]
  change 48 + (10 * 0 + (c.toNat - 48)) = c.toNat
  change 48 ≤ c.toNat at hc
  omega

lemma digitChar_spec : ∀ n < 10,
    Token.isDigit (Nat.digitChar n) = true ∧ ofDigits [Nat.digitChar n] = n := by
  decide

/-- The digits of a number have no redundant zeros and stand for it. -/
lemma digits_spec (n : Nat) : WholePart (digits n) ∧ ofDigits (digits n) = n := by
  induction n using Nat.strongRecOn with
  | ind n ih =>
    by_cases hn : n < 10
    · obtain ⟨hdigit, hvalue⟩ := digitChar_spec n hn
      rw [digits, Nat.toDigits_of_lt_base hn]
      exact ⟨⟨by simp, by simpa using hdigit, by simp⟩, hvalue⟩
    · obtain ⟨hdigit, hvalue⟩ := digitChar_spec (n % 10) (Nat.mod_lt n (by decide))
      obtain ⟨hfirst, hquotient⟩ := ih (n / 10) (by omega)
      rw [digits, Nat.toDigits_of_base_le (by decide) (Nat.not_lt.mp hn)]
      constructor
      · refine hfirst.append (fun hzero => ?_) (by simpa using hdigit)
        rw [hzero] at hquotient
        change 0 = n / 10 at hquotient
        omega
      · change ofDigits (digits (n / 10) ++ _) = n
        rw [ofDigits_append, hquotient, hvalue, List.length_singleton, pow_one]
        omega

lemma wholePart_digits (n : Nat) : WholePart (digits n) := (digits_spec n).1

lemma ofDigits_digits (n : Nat) : ofDigits (digits n) = n := (digits_spec n).2

/-- Digits without redundant zeros are those of their number. -/
theorem digits_ofDigits (h : WholePart ds) : digits (ofDigits ds) = ds := by
  -- Digits are added at the end, where a number takes one more.
  induction ds using List.reverseRecOn with
  | nil => exact absurd rfl h.ne_nil
  | append_singleton ds c ih =>
    have hc : Token.isDigit c = true := h.digits c (by simp)
    have hlast : digits (ofDigits [c]) = [c] := by
      rw [digits, Nat.toDigits_of_lt_base (ofDigits_singleton_lt hc), digitChar_ofDigits hc]
    by_cases hne : ds = []
    · rw [hne]
      exact hlast
    · have hds := ih (h.left hne)
      have hpos : 0 < ofDigits ds := by
        by_contra hzero
        rw [Nat.not_lt, Nat.le_zero] at hzero
        rw [hzero] at hds
        rw [← hds] at h
        exact h.no_redundant_zero c [] rfl
      have happend := Nat.toDigits_append_toDigits (b := 10) (by decide) hpos
        (ofDigits_singleton_lt hc)
      unfold digits at hds hlast ⊢
      rw [ofDigits_append, List.length_singleton, pow_one, Nat.mul_comm, ← happend, hds, hlast]

lemma ofDigits_zeros (k : Nat) (cs : List Char) :
    ofDigits (List.replicate k '0' ++ cs) = ofDigits cs := by
  induction k with
  | zero => rfl
  | succ k ih => exact ih

/-- Any digits are those of their number behind zeros. -/
lemma zeros_digits_ofDigits (hne : cs ≠ []) (hcs : ∀ c ∈ cs, Token.isDigit c = true) :
    List.replicate (cs.length - (digits (ofDigits cs)).length) '0' ++ digits (ofDigits cs) =
      cs := by
  induction cs with
  | nil => exact absurd rfl hne
  | cons c cs ih =>
    by_cases hzero : c = '0' ∧ cs ≠ []
    · obtain ⟨rfl, hmore⟩ := hzero
      have hrest := ih hmore fun d hd => hcs d (List.mem_cons_of_mem _ hd)
      have hlength := congrArg List.length hrest
      rw [List.length_append, List.length_replicate] at hlength
      have hvalue : ofDigits ('0' :: cs) = ofDigits cs := ofDigits_zeros 1 cs
      have hzeros : ('0' :: cs).length - (digits (ofDigits cs)).length =
          cs.length - (digits (ofDigits cs)).length + 1 := by
        rw [List.length_cons]
        omega
      rw [hvalue, hzeros, List.replicate_succ, List.cons_append, hrest]
    · have hwhole : WholePart (c :: cs) := by
        refine ⟨hne, hcs, fun d rest hstart => hzero ?_⟩
        obtain ⟨rfl, rfl⟩ := List.cons.inj hstart
        exact ⟨rfl, List.cons_ne_nil d rest⟩
      rw [digits_ofDigits hwhole, Nat.sub_self]
      rfl

/-- The sign that a number is written with. -/
def signText (negative : Bool) : List Char :=
  if negative then ['-'] else []

lemma signPart_signText (negative : Bool) : SignPart (signText negative) := by
  cases negative with
  | true => exact .sign rfl
  | false => exact .none

lemma signText_eq (negative : Bool) : decide (signText negative = ['-']) = negative := by
  cases negative <;> rfl

lemma integerText_eq (n : Int) :
    integerText n = String.ofList (signText (n < 0) ++ digits n.natAbs) := by
  by_cases hn : n < 0
  · rw [integerText, if_pos hn, decide_eq_true hn]
    rfl
  · rw [integerText, if_neg hn, decide_eq_false hn]
    rfl

lemma lt_digitBound_iff (k : Nat) : k < digitBound ↔ (digits k).length ≤ maxDigits := by
  have hpos : 0 < maxDigits := by decide
  unfold digitBound powerOfTen
  generalize maxDigits = m at hpos ⊢
  exact (Nat.length_toDigits_le_iff (by decide) hpos).symm

/-- The value of a digit. -/
def digitValue (c : Char) : ℚ :=
  (c.toNat - '0'.toNat : Nat)

/-- The value of digits before a point. -/
def wholeValue : List Char → ℚ
  | [] => 0
  | c :: cs => digitValue c * 10 ^ cs.length + wholeValue cs

/-- The value of digits behind a point. -/
def fractionValue : List Char → ℚ
  | [] => 0
  | c :: cs => (digitValue c + fractionValue cs) / 10

lemma cast_ofDigits_cons (c : Char) (cs : List Char) :
    (ofDigits (c :: cs) : ℚ) = digitValue c * 10 ^ cs.length + ofDigits cs := by
  have hdigit : (ofDigits [c] : ℚ) = digitValue c := by
    change ((10 * 0 + (c.toNat - '0'.toNat) : Nat) : ℚ) = digitValue c
    rw [Nat.mul_zero, Nat.zero_add]
    rfl
  rw [← hdigit, ← List.singleton_append, ofDigits_append]
  push_cast
  rfl

lemma wholeValue_eq (ds : List Char) : wholeValue ds = ofDigits ds := by
  induction ds with
  | nil => rfl
  | cons c ds ih => rw [wholeValue, ih, cast_ofDigits_cons]

lemma fractionValue_eq (fs : List Char) : fractionValue fs = ofDigits fs / 10 ^ fs.length := by
  induction fs with
  | nil => simp [fractionValue, ofDigits]
  | cons c fs ih =>
    rw [fractionValue, ih, cast_ofDigits_cons, List.length_cons, pow_succ]
    field_simp

end Number

/-! ### Decimals -/

namespace Decimal

open Number

/-- A number with a point before its last digits has a whole part and a fraction. -/
lemma pointed_digits (n : Nat) {k : Nat} (hk : 0 < k) :
    ∃ ds fs, pointed (digits n) k = ds ++ '.' :: fs ∧ WholePart ds ∧ FractionPart fs ∧
      fs.length = k ∧ ofDigits (ds ++ fs) = n := by
  have hwhole := wholePart_digits n
  generalize hpadded : List.replicate (k + 1 - (digits n).length) '0' ++ digits n = padded
  have hlength : padded.length = k + 1 - (digits n).length + (digits n).length := by
    rw [← hpadded, List.length_append, List.length_replicate]
  have hdigits : ∀ c ∈ padded, Token.isDigit c = true := by
    intro c hc
    rw [← hpadded, List.mem_append, List.mem_replicate] at hc
    rcases hc with ⟨-, rfl⟩ | hc
    · rfl
    · exact hwhole.digits c hc
  have hsplit := List.take_append_drop (padded.length - k) padded
  have hbefore : (padded.take (padded.length - k)).length = padded.length - k := by
    rw [List.length_take]
    omega
  have hbehind : (padded.drop (padded.length - k)).length = k := by
    rw [List.length_drop]
    omega
  have hne : padded.take (padded.length - k) ≠ [] := by
    rw [← List.length_pos_iff]
    omega
  refine ⟨padded.take (padded.length - k), padded.drop (padded.length - k), ?_, ?_, ⟨?_, ?_⟩,
    hbehind, ?_⟩
  · rw [pointed, hpadded]
  · by_cases hshort : (digits n).length ≤ k
    · -- Where zeros are added, a single one stands before the point.
      refine ⟨hne, fun c hc => hdigits c (List.mem_of_mem_take hc), fun d rest hzero => ?_⟩
      rw [hzero, List.length_cons, List.length_cons] at hbefore
      omega
    · have hnone : k + 1 - (digits n).length = 0 := by omega
      rw [hnone, List.replicate_zero, List.nil_append] at hpadded
      rw [hpadded, ← hsplit] at hwhole
      exact hwhole.left hne
  · rw [← List.length_pos_iff]
    omega
  · exact fun c hc => hdigits c (List.mem_of_mem_drop hc)
  · rw [hsplit, ← hpadded, ofDigits_zeros, ofDigits_digits]

/-- A whole part and a fraction are what their number with a point before the fraction is. -/
lemma pointed_ofDigits (hd : WholePart ds) (hf : FractionPart fs) :
    pointed (digits (ofDigits (ds ++ fs))) fs.length = ds ++ '.' :: fs := by
  have hpadded : List.replicate (fs.length + 1 - (digits (ofDigits (ds ++ fs))).length) '0' ++
      digits (ofDigits (ds ++ fs)) = ds ++ fs := by
    by_cases hzero : ds = ['0']
    · subst hzero
      refine zeros_digits_ofDigits (List.cons_ne_nil '0' fs) fun c hc => ?_
      rcases List.mem_cons.mp hc with rfl | hc
      · rfl
      · exact hf.digits c hc
    · have hpos := List.length_pos_iff.mpr hd.ne_nil
      have hnone : fs.length + 1 - (ds.length + fs.length) = 0 := by omega
      rw [digits_ofDigits (hd.append hzero hf.digits), List.length_append, hnone]
      rfl
  have hbefore : (ds ++ fs).length - fs.length = ds.length := by
    rw [List.length_append, Nat.add_sub_cancel]
  rw [pointed, hpadded, hbefore, List.take_left, List.drop_left]

/-- The exact value of digits around a point. -/
lemma toRat_ofDigits (negative : Bool) (ds fs : List Char) :
    toRat ⟨negative, ofDigits (ds ++ fs), -fs.length⟩ =
      (if negative then -1 else 1) * (wholeValue ds + fractionValue fs) := by
  have hpow : (10 : ℚ) ^ fs.length ≠ 0 := pow_ne_zero _ (by norm_num)
  rw [toRat_eq, wholeValue_eq, fractionValue_eq]
  simp only [sign, unit, ofDigits_append, zpow_neg, zpow_natCast]
  push_cast
  split
  · field_simp
  · field_simp

variable {d : Decimal}

lemma text_eq (d : Decimal) : d.text = String.ofList (signText d.negative ++ d.unsignedText) := by
  unfold text signText
  split <;> rfl

lemma unsignedText_positional (he : d.exponent ≤ -1) (ha : -6 ≤ d.adjusted) :
    d.unsignedText = pointed (digits d.coefficient) (-d.exponent).toNat := by
  have hle : d.exponent ≤ 0 := by omega
  have hne : d.exponent ≠ 0 := by omega
  simp [unsignedText, hle, hne, ha]

/-- A decimal with its first digit far behind the point is written with an exponent. -/
lemma mem_unsignedText (ha : d.adjusted < -6) : 'E' ∈ d.unsignedText := by
  have hnot : ¬ -6 ≤ d.adjusted := by omega
  simp [unsignedText, hnot]

end Decimal

/-! ### Different numbers have different texts -/

namespace Number

lemma digits_injective : Function.Injective digits := by
  intro n m h
  rw [← ofDigits_digits n, h, ofDigits_digits]

/-- Digits are not a sign, a point or a mark of an exponent. -/
lemma notMem_of_isDigit (hc : Token.isDigit c = false) (h : ∀ d ∈ ds, Token.isDigit d = true) :
    c ∉ ds := by
  intro hmem
  rw [h c hmem] at hc
  cases hc

/-- A sign can be told from a text that begins with a digit. -/
lemma signText_append_inj {b b' : Bool} {xs ys : List Char} {x y : Char}
    (hx : Token.isDigit x = true) (hy : Token.isDigit y = true)
    (h : signText b ++ x :: xs = signText b' ++ y :: ys) : b = b' ∧ x :: xs = y :: ys := by
  have hminus {c : Char} (hc : Token.isDigit c = true) : c ≠ '-' := by
    rintro rfl
    cases hc
  cases b <;> cases b'
  · exact ⟨rfl, h⟩
  · exact absurd (List.cons.inj h).1 (hminus hx)
  · exact absurd (List.cons.inj h).1.symm (hminus hy)
  · exact ⟨rfl, (List.cons.inj h).2⟩

theorem integerText_injective : Function.Injective integerText := by
  intro n m h
  rw [integerText_eq, integerText_eq, String.ofList_inj] at h
  obtain ⟨x, xs, hn, hx⟩ := (wholePart_digits n.natAbs).eq_cons
  obtain ⟨y, ys, hm, hy⟩ := (wholePart_digits m.natAbs).eq_cons
  rw [hn, hm] at h
  obtain ⟨hsign, habs⟩ := signText_append_inj hx hy h
  rw [← hn, ← hm] at habs
  have habs := digits_injective habs
  rw [decide_eq_decide] at hsign
  omega

end Number

namespace Decimal

open Number

/-- The three ways to write a decimal. -/
lemma unsignedText_cases (d : Decimal) :
    (d.exponent = 0 ∧ d.unsignedText = digits d.coefficient) ∨
    (∃ ds fs, d.exponent = -fs.length ∧ ofDigits (ds ++ fs) = d.coefficient ∧ WholePart ds ∧
      FractionPart fs ∧ d.unsignedText = ds ++ '.' :: fs) ∨
    d.unsignedText = leading (digits d.coefficient) ++ 'E' :: exponentText d.adjusted := by
  by_cases hplain : d.exponent ≤ 0 ∧ -6 ≤ d.adjusted
  · by_cases hzero : d.exponent = 0
    · exact .inl ⟨hzero, by simp [unsignedText, hzero, hplain.2]⟩
    · have he : d.exponent ≤ -1 := by omega
      obtain ⟨ds, fs, htext, hds, hfs, hlength, hvalue⟩ :=
        pointed_digits d.coefficient (k := (-d.exponent).toNat) (by omega)
      refine .inr (.inl ⟨ds, fs, ?_, hvalue, hds, hfs, ?_⟩)
      · omega
      · rw [unsignedText_positional he hplain.2, htext]
  · right; right
    unfold unsignedText
    dsimp only
    rw [if_neg]
    simpa using hplain

lemma leading_injective : Function.Injective leading := by
  intro ds fs h
  rcases ds with _ | ⟨c, _ | ⟨d, ds⟩⟩ <;> rcases fs with _ | ⟨e, _ | ⟨f, fs⟩⟩ <;>
    simp only [leading, List.cons.injEq, reduceCtorEq, and_false, and_true, true_and] at h ⊢
  all_goals exact h

lemma mem_leading (h : c ∈ leading ds) : c = '.' ∨ c ∈ ds := by
  rcases ds with _ | ⟨d, _ | ⟨e, ds⟩⟩
  · exact .inr h
  · exact .inr h
  · simp only [leading, List.mem_cons] at h ⊢
    tauto

lemma exponentText_injective : Function.Injective exponentText := by
  intro e f h
  unfold exponentText at h
  obtain ⟨hsign, habs⟩ := List.cons.inj h
  have habs := digits_injective habs
  split_ifs at hsign
  · omega
  · cases hsign
  · cases hsign
  · omega

/-- A decimal without its sign begins with a digit. -/
lemma unsignedText_eq_cons (d : Decimal) :
    ∃ x xs, d.unsignedText = x :: xs ∧ Token.isDigit x = true := by
  rcases d.unsignedText_cases with ⟨-, htext⟩ | ⟨ds, fs, -, -, hds, -, htext⟩ | htext
  · rw [htext]
    exact (wholePart_digits _).eq_cons
  · obtain ⟨x, xs, rfl, hx⟩ := hds.eq_cons
    exact ⟨x, xs ++ '.' :: fs, htext, hx⟩
  · obtain ⟨x, xs, hdigits, hx⟩ := (wholePart_digits d.coefficient).eq_cons
    rw [hdigits] at htext
    cases xs with
    | nil => exact ⟨x, _, htext, hx⟩
    | cons y ys => exact ⟨x, _, htext, hx⟩

/-- The characters of a decimal. -/
lemma mem_text {d : Decimal} (h : c ∈ d.text.toList) :
    Token.isDigit c = true ∨ c ∈ ['-', '+', '.', 'E'] := by
  have hdigits (n : Nat) : ∀ c ∈ digits n, Token.isDigit c = true := (wholePart_digits n).digits
  rw [text_eq, String.toList_ofList, List.mem_append] at h
  rcases h with hsign | h
  · unfold signText at hsign
    split at hsign
    · rw [List.mem_singleton.1 hsign]
      exact .inr (by decide)
    · cases hsign
  rcases d.unsignedText_cases with ⟨-, htext⟩ | ⟨ds, fs, -, -, hds, hfs, htext⟩ | htext <;>
    rw [htext] at h
  · exact .inl (hdigits _ c h)
  · rw [List.mem_append, List.mem_cons] at h
    rcases h with h | rfl | h
    · exact .inl (hds.digits c h)
    · exact .inr (by decide)
    · exact .inl (hfs.digits c h)
  · rw [List.mem_append, List.mem_cons, exponentText, List.mem_cons] at h
    rcases h with h | rfl | rfl | h
    · rcases mem_leading h with rfl | h
      · exact .inr (by decide)
      · exact .inl (hdigits _ c h)
    · exact .inr (by decide)
    · right
      split <;> decide
    · exact .inl (hdigits _ c h)

/-- A decimal without its sign is determined by its text. -/
lemma unsignedText_inj {d d' : Decimal} (h : d.unsignedText = d'.unsignedText) :
    d.coefficient = d'.coefficient ∧ d.exponent = d'.exponent := by
  have hpoint {n : Nat} : '.' ∉ digits n :=
    notMem_of_isDigit rfl (wholePart_digits n).digits
  have hmark {n : Nat} : 'E' ∉ digits n := notMem_of_isDigit rfl (wholePart_digits n).digits
  have hplain {ds fs : List Char} (hds : WholePart ds) (hfs : FractionPart fs) :
      'E' ∉ ds ++ '.' :: fs := by
    have hds : 'E' ∉ ds := notMem_of_isDigit rfl hds.digits
    have hfs : 'E' ∉ fs := notMem_of_isDigit rfl hfs.digits
    simp [hds, hfs]
  have hleading {n : Nat} : 'E' ∉ leading (digits n) := by
    intro hmem
    rcases mem_leading hmem with hdot | hmem
    · cases hdot
    · exact hmark hmem
  -- A text is of digits alone, has a point but no mark of an exponent, or has that mark, so two
  -- equal texts are of one form.
  rcases d.unsignedText_cases with ⟨he, ht⟩ | ⟨ds, fs, he, hvalue, hds, hfs, ht⟩ | ht <;>
    rcases d'.unsignedText_cases with
      ⟨he', ht'⟩ | ⟨ds', fs', he', hvalue', hds', hfs', ht'⟩ | ht' <;>
    rw [ht, ht'] at h
  · exact ⟨digits_injective h, he.trans he'.symm⟩
  · exact absurd (h ▸ List.mem_append_cons_self) hpoint
  · exact absurd (h ▸ List.mem_append_cons_self) hmark
  · exact absurd (h ▸ List.mem_append_cons_self) hpoint
  · obtain ⟨rfl, rfl⟩ := Text.append_cons_inj (notMem_of_isDigit rfl hds.digits)
      (notMem_of_isDigit rfl hds'.digits) h
    exact ⟨hvalue.symm.trans hvalue', he.trans he'.symm⟩
  · exact absurd (h ▸ List.mem_append_cons_self) (hplain hds hfs)
  · exact absurd (h ▸ List.mem_append_cons_self) hmark
  · exact absurd (h ▸ List.mem_append_cons_self) (hplain hds' hfs')
  · obtain ⟨hcoefficient, hadjusted⟩ := Text.append_cons_inj hleading hleading h
    have hcoefficient := digits_injective (leading_injective hcoefficient)
    have hadjusted := exponentText_injective hadjusted
    unfold adjusted at hadjusted
    rw [hcoefficient] at hadjusted
    exact ⟨hcoefficient, by omega⟩

/-- A decimal is determined by its text. -/
theorem text_injective : Function.Injective text := by
  intro d d' h
  rw [text_eq, text_eq, String.ofList_inj] at h
  obtain ⟨x, xs, hd, hx⟩ := d.unsignedText_eq_cons
  obtain ⟨y, ys, hd', hy⟩ := d'.unsignedText_eq_cons
  rw [hd, hd'] at h
  obtain ⟨hsign, hrest⟩ := signText_append_inj hx hy h
  rw [← hd, ← hd'] at hrest
  obtain ⟨hcoefficient, hexponent⟩ := unsignedText_inj hrest
  cases d
  cases d'
  simp_all

end Decimal

end LetDef
