import LetDef.Proofs.Number.Arithmetic
import LetDef.Proofs.Syntax.Twins

/-!
# Equality of trees is an equivalence

Data agree if they are worth the same number, or else if they are equal, so trees that are the same
cannot be told apart by a comparison with a third one.
-/

namespace LetDef

/-! ### Data -/

namespace Value

variable {v w : Value}

lemma agrees_iff : v.agrees w = true ↔
    v.number?.map Decimal.toRat = w.number?.map Decimal.toRat ∧ (v.number? = none → v = w) := by
  unfold agrees
  cases v.number? with
  | none =>
    cases w.number? with
    | none => simp
    | some y => simp
  | some x =>
    cases w.number? with
    | none => simp
    | some y => simp [Decimal.sameValue_iff]

/-- Values that agree agree with the same values. -/
lemma agrees_congr (h : v.agrees w = true) (u : Value) : v.agrees u = w.agrees u := by
  obtain ⟨hworth, hequal⟩ := agrees_iff.1 h
  rw [Bool.eq_iff_iff, agrees_iff, agrees_iff, hworth]
  cases hnumber : v.number? with
  | none => rw [← hequal hnumber, hnumber]
  | some x =>
    rw [hnumber] at hworth
    cases hnumber' : w.number? with
    | none => simp [hnumber'] at hworth
    | some y => simp

end Value

mutual

/-- Data that agree agree with the same data. -/
lemma Datum.agrees_congr : ∀ {a b : Datum}, a.agrees b = true → ∀ c, a.agrees c = b.agrees c
  | .value _, .value _, h, .value u => Value.agrees_congr h u
  | .value _, .value _, _, .list _ => rfl
  | .list _, .list _, _, .value _ => rfl
  | .list _, .list _, h, .list cs => Datum.agrees_go_congr h cs
  | .value _, .list _, h, _ => by cases h
  | .list _, .value _, h, _ => by cases h

/-- Lists of data that agree agree with the same lists. -/
lemma Datum.agrees_go_congr : ∀ {as bs : List Datum}, agrees.go as bs = true →
    ∀ cs, agrees.go as cs = agrees.go bs cs
  | [], [], _, _ => rfl
  | _ :: _, _ :: _, _, [] => rfl
  | a :: as, b :: bs, h, c :: cs => by
    rw [agrees.go, Bool.and_eq_true] at h
    rw [agrees.go, agrees.go, Datum.agrees_congr h.1, Datum.agrees_go_congr h.2]
  | [], _ :: _, h, _ => by cases h
  | _ :: _, [], h, _ => by cases h

end

/-! ### Trees -/

namespace Node

variable {n n' : Node}

lemma same_all_congr {ns : List Node}
    (h : ∀ n ∈ ns, ∀ n', n.same n' = true → ∀ m, n.same m = n'.same m) {ns' : List Node}
    (hns : same.all ns ns' = true) (ms : List Node) : same.all ns ms = same.all ns' ms := by
  induction ns generalizing ns' ms with
  | nil =>
    cases ns' with
    | nil => rfl
    | cons => cases hns
  | cons n ns ih =>
    rw [List.forall_mem_cons] at h
    cases ns' with
    | nil => cases hns
    | cons n' ns' =>
      rw [same.all, Bool.and_eq_true] at hns
      cases ms with
      | nil => rfl
      | cons m ms => rw [same.all, same.all, h.1 n' hns.1, ih h.2 hns.2]

/-- Trees that are the same are the same as the same trees. -/
lemma same_congr (h : n.same n' = true) (m : Node) : n.same m = n'.same m := by
  -- By induction on the first tree. The second is of its kind, and a third of another kind is the
  -- same as neither.
  induction n using nestedInduction generalizing n' m with
  | absent =>
    cases n' with
    | absent => rfl
    | _ => cases h
  -- A literal is the only leaf with data of its own, which agree instead of being equal.
  | literal _ value sort =>
    cases n' with
    | literal _ value' sort' =>
      simp only [same, Bool.and_eq_true, beq_iff_eq] at h
      cases m with
      | literal => simp only [same, Datum.agrees_congr h.1, h.2]
      | _ => rfl
    | _ => cases h
  | group _ body ih =>
    cases n' with
    | group _ body' =>
      cases m with
      | group => exact ih h _
      | _ => rfl
    | _ => cases h
  | binary _ _ left right ihl ihr =>
    cases n' with
    | binary =>
      simp only [same, Bool.and_eq_true, beq_iff_eq] at h
      cases m with
      | binary => simp only [same, h.1.1, ihl h.1.2, ihr h.2]
      | _ => rfl
    | _ => cases h
  | access _ _ _ ih =>
    cases n' with
    | access =>
      simp only [same, Bool.and_eq_true, beq_iff_eq] at h
      cases m with
      | access => simp only [same, ih h.1, h.2]
      | _ => rfl
    | _ => cases h
  | call _ _ _ _ ih ihs =>
    cases n' with
    | call =>
      simp only [same, Bool.and_eq_true, beq_iff_eq] at h
      have hs := same_all_congr (fun n hn _ => ihs n hn) h.2
      cases m with
      | call => simp only [same, ih h.1.1, h.1.2, hs]
      | _ => rfl
    | _ => cases h
  | perform _ _ ih =>
    cases n' with
    | perform =>
      cases m with
      | perform => exact ih h _
      | _ => rfl
    | _ => cases h
  | declare _ _ _ _ ih =>
    cases n' with
    | declare =>
      simp only [same, Bool.and_eq_true, beq_iff_eq] at h
      cases m with
      | declare => simp only [same, h.1.1, h.1.2, ih h.2]
      | _ => rfl
    | _ => cases h
  | assign _ _ _ ihr ihv =>
    cases n' with
    | assign =>
      simp only [same, Bool.and_eq_true] at h
      cases m with
      | assign => simp only [same, ihr h.1, ihv h.2]
      | _ => rfl
    | _ => cases h
  | branch _ _ _ _ ihc iht ihe =>
    cases n' with
    | branch =>
      simp only [same, Bool.and_eq_true] at h
      have ht := same_all_congr (fun n hn _ => iht n hn) h.1.2
      have he := same_all_congr (fun n hn _ => ihe n hn) h.2
      cases m with
      | branch => simp only [same, ihc h.1.1, ht, he]
      | _ => rfl
    | _ => cases h
  | forLoop _ _ _ _ _ ihf ihc ihl ihb =>
    cases n' with
    | forLoop =>
      simp only [same, Bool.and_eq_true] at h
      have hb := same_all_congr (fun n hn _ => ihb n hn) h.2
      cases m with
      | forLoop => simp only [same, ihf h.1.1.1, ihc h.1.1.2, ihl h.1.2, hb]
      | _ => rfl
    | _ => cases h
  | whileLoop _ _ _ ihc ihb =>
    cases n' with
    | whileLoop =>
      simp only [same, Bool.and_eq_true] at h
      have hb := same_all_congr (fun n hn _ => ihb n hn) h.2
      cases m with
      | whileLoop => simp only [same, ihc h.1, hb]
      | _ => rfl
    | _ => cases h
  | giveBack _ _ ih =>
    cases n' with
    | giveBack =>
      cases m with
      | giveBack => exact ih h _
      | _ => rfl
    | _ => cases h
  | field _ _ _ _ _ ih =>
    cases n' with
    | field =>
      simp only [same, Bool.and_eq_true, beq_iff_eq] at h
      cases m with
      | field => simp only [same, h.1.1.1, h.1.1.2, h.1.2, ih h.2]
      | _ => rfl
    | _ => cases h
  | method _ _ _ _ _ _ ihb =>
    cases n' with
    | method =>
      simp only [same, Bool.and_eq_true, beq_iff_eq] at h
      have hb := same_all_congr (fun n hn _ => ihb n hn) h.2
      cases m with
      | method => simp only [same, h.1.1.1.1, h.1.1.1.2, h.1.1.2, h.1.2, hb]
      | _ => rfl
    | _ => cases h
  | program _ _ _ ihf ihm =>
    cases n' with
    | program =>
      simp only [same, Bool.and_eq_true] at h
      have hf := same_all_congr (fun n hn _ => ihf n hn) h.1
      have hm := same_all_congr (fun n hn _ => ihm n hn) h.2
      cases m with
      | program => simp only [same, hf, hm]
      | _ => rfl
    | _ => cases h

/-- To be the same is an equivalence of trees. -/
theorem equivalence_same : Equivalence fun n n' : Node => n.same n' = true where
  refl := same_self
  symm {n n'} h := by
    rw [← same_congr h n]
    exact same_self n
  trans {n n' m} h h' := by rw [same_congr h m, h']

/-- The comparison says that trees are the same if they are, and if they are not nested too deeply
to tell. -/
lemma same?_eq_true_iff :
    n.same? n' = some true ↔ n.same n' = true ∧ n.nesting ≤ comparableNesting := by
  unfold same?
  constructor
  · intro h
    split at h
    · next hnesting =>
      have hsame : n.same n' = true := Option.some.inj h
      rw [nesting_of_same hsame, Bool.or_self] at hnesting
      exact ⟨hsame, of_decide_eq_true hnesting⟩
    · cases h
  · rintro ⟨hsame, hnesting⟩
    rw [if_pos (by simp [hnesting]), hsame]

end Node

end LetDef
