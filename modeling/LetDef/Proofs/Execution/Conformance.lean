import LetDef.Proofs.Analysis.Typing
import LetDef.Proofs.Number.Quotient

/-!
# Values of types

Which values a type has, and that the operators keep to the types that analysis gives them. Every
type also admits nil, because a variable may be unset and a method may return nothing; so operators
may still refuse nil, and two values that only have in common that they can be compared.
-/

namespace LetDef

open Execution

/-- Whether the value is one of the type. A type of a host has none. -/
def Ty.conforms : Ty → Value → Bool
  | .any, _ => true
  | .nil, .nil => true
  | .boolean, .boolean _ => true
  | .integer, .integer _ => true
  | .decimal, .decimal d => decide (d.exponent ≤ -1)
  | .character, .text s => decide (s.length = 1)
  | .string, .text _ => true
  | .comparable, .integer _ => true
  | .comparable, .decimal _ => true
  | .comparable, .text _ => true
  | _, _ => false

/-- The value is nil or one of the type. -/
def Ty.Admits (t : Ty) (v : Value) : Prop :=
  v = .nil ∨ t.conforms v = true

variable {t l r : Ty} {v a b : Value} {operator : String}

lemma Ty.admits_nil (t : Ty) : t.Admits .nil :=
  .inl rfl

/-- A type that accepts another has its values. -/
lemma Ty.conforms_of_accepts {target source : Ty} (h : target.accepts source = true)
    (hv : source.conforms v = true) : target.conforms v = true := by
  simp only [Ty.accepts, Bool.or_eq_true, Bool.and_eq_true, decide_eq_true_eq] at h
  rcases h with (rfl | rfl) | ⟨rfl, ho⟩
  · rfl
  · exact hv
  · cases source <;> cases ho <;> cases v <;> first | rfl | cases hv

lemma Ty.Admits.of_accepts {target source : Ty} (hv : source.Admits v)
    (h : target.accepts source = true) : target.Admits v := by
  rcases hv with rfl | hv
  · exact target.admits_nil
  · exact .inr (Ty.conforms_of_accepts h hv)

/-- A literal is of the type of its sort. -/
lemma Value.Denoted.conforms {sort : String} (h : v.Denoted sort)
    (ht : Analysis.literalType? sort = some t) : t.conforms v = true := by
  cases h with
  | nil =>
    cases ht
    rfl
  | boolean b =>
    cases ht
    rfl
  | integer n =>
    cases ht
    rfl
  | decimal h =>
    cases ht
    exact decide_eq_true h
  | character c =>
    cases ht
    simp [Ty.conforms]
  | string s =>
    cases ht
    rfl

/-! ### Operators -/

/-- What operands of the types may be wrong with: one of them is nil, or they are to be ordered, are
only known to be comparable, and are of different kinds. -/
def Mismatch (operator : String) (l r : Ty) (a b : Value) : Prop :=
  a = .nil ∨ b = .nil ∨
    (l = .comparable ∧ r = .comparable ∧ (orderTest? operator).isSome = true ∧
      a.kindName ≠ b.kindName)

/-- The outcome of an operation that has the type `t`: a value that is one of the type in the range
of exponents, or a refusal for which the types of the operands do not answer. -/
def Fair (operator : String) (l r t : Ty) (a b : Value) : Except Refusal Value → Prop
  | .ok v => ∃ u, v.confine? = some u ∧ t.conforms u = true
  | .error .tooManyDigits => True
  | .error (.cause .divisionByZero) => True
  | .error (.cause c) => c = .invalidOperands operator a b ∧ Mismatch operator l r a b

/-- Values other than nil that cannot be ordered are of different kinds. -/
lemma kindName_ne_of_compare? (ha : a ≠ .nil) (h : compare? a b = none) :
    a.kindName ≠ b.kindName := by
  intro heq
  cases a <;> cases b <;> simp_all [Value.kindName, compare?]

/-- The values of an ordered type are of one kind. -/
lemma kindName_eq_of_isOrdered (ht : t.isOrdered = true) (ha : t.conforms a = true)
    (hb : t.conforms b = true) : a.kindName = b.kindName := by
  cases t <;> cases ht <;> cases a <;> cases b <;> simp_all [Ty.conforms, Value.kindName]

/-- Values of one type that cannot be ordered do not match. -/
lemma mismatch_of_compare? (ht : Ty.comparable.accepts t = true) (ha : t.Admits a)
    (hb : t.Admits b) (ho : (orderTest? operator).isSome = true) (h : compare? a b = none) :
    Mismatch operator t t a b := by
  by_cases hnil : a = .nil
  · exact .inl hnil
  rcases hb with rfl | hb
  · exact .inr (.inl rfl)
  have hkinds := kindName_ne_of_compare? hnil h
  by_cases hc : t = .comparable
  · exact .inr (.inr ⟨hc, hc, ho, hkinds⟩)
  · have hordered : t.isOrdered = true := by
      have hne : Ty.comparable ≠ t := fun heq => hc heq.symm
      simpa [Ty.accepts, hne] using ht
    have ha' := ha.resolve_left hnil
    exact absurd (kindName_eq_of_isOrdered hordered ha' hb) hkinds

lemma integerOperation_fair (n m : Int) :
    Fair operator l r .integer a b (integerOperation operator n m) := by
  unfold integerOperation
  split_ifs
  · exact ⟨_, rfl, rfl⟩
  · exact ⟨_, rfl, rfl⟩
  · exact ⟨_, rfl, rfl⟩
  · trivial
  · exact ⟨_, rfl, rfl⟩

/-- A decimal whose exponent is below zero is not above the range, and it stays below zero. -/
lemma exists_confine? {d : Decimal} (hd : d.exponent ≤ -1) :
    ∃ u, (Value.decimal d).confine? = some u ∧ Ty.decimal.conforms u = true := by
  have hconfine : ∃ e : Decimal, d.confine? = some e ∧ e.exponent ≤ -1 := by
    unfold Decimal.confine? Decimal.minExponent Decimal.maxExponent
    split_ifs with hzero habove
    · exact ⟨_, rfl, by dsimp only; omega⟩
    · simp only [Bool.and_eq_true, decide_eq_true_eq] at habove
      omega
    · exact ⟨_, rfl, by dsimp only; omega⟩
    · exact ⟨d, rfl, hd⟩
  obtain ⟨e, he, hexponent⟩ := hconfine
  exact ⟨.decimal e, by rw [Value.confine?, he]; rfl, decide_eq_true hexponent⟩

/-- The exponents of decimals of a program stay below zero. -/
lemma decimalOperation_fair {d e : Decimal} (hd : d.exponent ≤ -1) (he : e.exponent ≤ -1) :
    Fair operator l r .decimal a b (decimalOperation operator d e) := by
  unfold decimalOperation
  split_ifs
  · exact exists_confine? (Int.le_trans (Int.min_le_left _ _) hd)
  · exact exists_confine? (Int.le_trans (Int.min_le_left _ _) hd)
  · refine exists_confine? ?_
    change d.exponent + e.exponent ≤ -1
    omega
  · trivial
  · split
    · rename_i q hq
      obtain ⟨hexponent, -⟩ := Decimal.of_div? hq
      exact exists_confine? (hexponent.trans_le hd)
    · trivial

/-- The arithmetic operators. -/
def arithmetic : List String :=
  ["+", "-", "*", "/"]

lemma operate_of_joins (h : joins a b = true) : operate "+" a b = join a b := by
  simp [operate, orderTest?, h]

lemma operate_integers {n m : Int} :
    ∀ operator ∈ arithmetic,
      operate operator (.integer n) (.integer m) = integerOperation operator n m := by
  simp [arithmetic, operate, orderTest?, joins, isArithmetic]

lemma operate_decimals {d e : Decimal} :
    ∀ operator ∈ arithmetic,
      operate operator (.decimal d) (.decimal e) = decimalOperation operator d e := by
  simp [arithmetic, operate, orderTest?, joins, isArithmetic]

/-- An arithmetic operator that does not join texts refuses nil. -/
lemma operate_nil (hnil : a = .nil ∨ b = .nil) (hj : joins a b = false) :
    ∀ operator ∈ arithmetic,
      operate operator a b = .error (.cause (.invalidOperands operator a b)) := by
  rcases hnil with rfl | rfl
  · simp [arithmetic, operate, orderTest?, hj, isArithmetic]
  · cases a <;> simp [arithmetic, operate, orderTest?, hj, isArithmetic]

lemma joins_eq_false (ht : t.isNumeric = true) (ha : t.Admits a) (hb : t.Admits b) :
    joins a b = false := by
  have hno {v : Value} (hv : t.Admits v) : ∀ s, v ≠ .text s := by
    rintro s rfl
    rcases hv with hv | hv
    · cases hv
    · cases t <;> cases ht <;> cases hv
  unfold joins
  split
  · exact absurd rfl (hno ha _)
  · exact absurd rfl (hno hb _)
  · rfl

/-- Numbers of one type are combined to one of it. -/
lemma arithmetic_fair (ho : operator ∈ arithmetic) (ht : t.isNumeric = true) (ha : t.Admits a)
    (hb : t.Admits b) : Fair operator t t t a b (operate operator a b) := by
  have hj := joins_eq_false ht ha hb
  rcases ha with rfl | ha
  · rw [operate_nil (.inl rfl) hj operator ho]
    exact ⟨rfl, .inl rfl⟩
  rcases hb with rfl | hb
  · rw [operate_nil (.inr rfl) hj operator ho]
    exact ⟨rfl, .inr (.inl rfl)⟩
  cases t with
  | integer =>
    cases a with
    | integer n =>
      cases b with
      | integer m =>
        rw [operate_integers operator ho]
        exact integerOperation_fair n m
      | _ => cases hb
    | _ => cases ha
  | decimal =>
    cases a with
    | decimal d =>
      cases b with
      | decimal e =>
        rw [operate_decimals operator ho]
        exact decimalOperation_fair (of_decide_eq_true ha) (of_decide_eq_true hb)
      | _ => cases hb
    | _ => cases ha
  | _ => cases ht

lemma join_fair : Fair operator l r .string a b (join a b) := by
  unfold join
  split
  · exact ⟨_, rfl, rfl⟩
  · trivial

/-- A sum of which one operand is a text is a text, unless that operand is nil. -/
lemma textSum_fair (h : l = .string ∨ r = .string) (ha : l.Admits a) (hb : r.Admits b) :
    Fair "+" l r .string a b (operate "+" a b) := by
  by_cases hj : joins a b = true
  · rw [operate_of_joins hj]
    exact join_fair
  · have hnil : a = .nil ∨ b = .nil := by
      rcases h with rfl | rfl
      · rcases ha with ha | ha
        · exact .inl ha
        · cases a with
          | text s => exact absurd rfl hj
          | _ => cases ha
      · rcases hb with hb | hb
        · exact .inr hb
        · cases b with
          | text s => cases a <;> exact absurd rfl hj
          | _ => cases hb
    rw [operate_nil hnil (eq_false_of_ne_true hj) "+" (by simp [arithmetic])]
    refine ⟨rfl, ?_⟩
    rcases hnil with hnil | hnil
    · exact .inl hnil
    · exact .inr (.inl hnil)

lemma orderTest?_isSome (ho : Analysis.isComparison operator = true) (heq : operator ≠ "==")
    (hne : operator ≠ "!=") : (orderTest? operator).isSome = true := by
  simp only [Analysis.isComparison, List.contains_eq_mem, decide_eq_true_eq, List.mem_cons,
    List.not_mem_nil, or_false] at ho
  rcases ho with rfl | rfl | rfl | rfl | rfl | rfl
  · rfl
  · rfl
  · rfl
  · rfl
  · exact absurd rfl heq
  · exact absurd rfl hne

/-- Values of one type that can be compared are compared, or do not match. -/
lemma comparison_fair (ho : Analysis.isComparison operator = true)
    (ht : Ty.comparable.accepts t = true) (ha : t.Admits a) (hb : t.Admits b) :
    Fair operator t t .boolean a b (operate operator a b) := by
  unfold operate
  by_cases heq : operator = "=="
  · rw [if_pos heq]
    exact ⟨_, rfl, rfl⟩
  by_cases hne : operator = "!="
  · rw [if_neg heq, if_pos hne]
    exact ⟨_, rfl, rfl⟩
  have hsome := orderTest?_isSome ho heq hne
  obtain ⟨test, htest⟩ := Option.isSome_iff_exists.1 hsome
  rw [if_neg heq, if_neg hne, htest]
  cases hc : compare? a b with
  | some order => exact ⟨_, rfl, rfl⟩
  | none => exact ⟨rfl, mismatch_of_compare? ht ha hb hsome hc⟩

/-- An operation that passes analysis yields a value of its type, or refuses its operands for what
they are and not for their types. -/
theorem operate_fair (h : Analysis.operationType operator l r = .ok t)
    (hlogical : Analysis.isLogical operator = false) (ha : l.Admits a) (hb : r.Admits b) :
    Fair operator l r t a b (operate operator a b) := by
  unfold Analysis.operationType at h
  rw [if_neg (by simp [hlogical])] at h
  -- The cases of the rule for types: a comparison, a sum of texts or of numbers, and the other
  -- arithmetic.
  split at h
  · rename_i hcomparison
    split at h
    · rename_i hsame
      cases h
      rw [Bool.and_eq_true, decide_eq_true_eq] at hsame
      obtain ⟨rfl, hacc⟩ := hsame
      exact comparison_fair hcomparison hacc ha hb
    · cases h
  split at h
  · rename_i hplus
    subst hplus
    split at h
    · rename_i hsum
      cases h
      unfold Analysis.sumType? at hsum
      split at hsum
      · rename_i htext
        cases hsum
        exact textSum_fair (by simpa using htext) ha hb
      · split at hsum
        · rename_i hnumeric
          cases hsum
          rw [Bool.and_eq_true, decide_eq_true_eq] at hnumeric
          obtain ⟨rfl, hnumeric⟩ := hnumeric
          exact arithmetic_fair (by simp [arithmetic]) hnumeric ha hb
        · cases hsum
    · cases h
  split at h
  · rename_i harithmetic
    have hmem : operator ∈ arithmetic := by
      simp only [Analysis.isArithmetic, List.contains_eq_mem, decide_eq_true_eq] at harithmetic
      exact List.mem_cons_of_mem _ harithmetic
    split at h
    · rename_i hnumeric
      cases h
      rw [Bool.and_eq_true, decide_eq_true_eq] at hnumeric
      obtain ⟨rfl, hnumeric⟩ := hnumeric
      exact arithmetic_fair hmem hnumeric ha hb
    · cases h
  · cases h

end LetDef
