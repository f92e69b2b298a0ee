import LetDef.Proofs.Outcome
import LetDef.Proofs.Store.Layout

/-!
# Steps in lockstep

Two runs or two analyses that differ in the scopes they enter are compared step by step, along a
layout that grows. A `Pairing` says which states and which ways to stop correspond, and which ways
to stop are not compared at all. Two steps are in step if from corresponding states they both yield
results that correspond or both stop correspondingly. Each way to build a step has a rule here.
-/

namespace LetDef

/-- How two runs are compared: whether the first or the second may be nested too deeply where the
other is not, and how many frames they have in common. -/
structure Allowance where
  left : Prop
  right : Prop
  base : Nat

/-- The depths of two runs of which the second is nested deeper, but no more than five times as
deep. -/
structure Allowance.Budget (A : Allowance) (d d' : Nat) : Prop where
  left : A.left ∨ d' ≤ d
  right : A.right ∨ 5 * d ≤ d'

namespace Allowance.Budget

variable {A : Allowance} {d d' e e' : Nat}

lemma shift (h : A.Budget d d') (hleft : d' ≤ d → e' ≤ e) (hright : 5 * d ≤ d' → 5 * e ≤ e') :
    A.Budget e e' :=
  ⟨h.left.imp_right hleft, h.right.imp_right hright⟩

lemma pred (h : A.Budget (d + 1) (d' + 1)) : A.Budget d d' :=
  h.shift (by omega) (by omega)

end Allowance.Budget

/-- What corresponds in two runs of one kind. -/
structure Pairing (ε σ : Type) where
  /-- The states correspond under a layout. -/
  states : Layout → σ → σ → Prop
  /-- Two ends without a result correspond under a layout. -/
  stops : Layout → ε × σ → ε × σ → Prop
  /-- Nothing is said of the second run where the first stops so. -/
  left : ε → Prop
  /-- Nothing is said of the first run where the second stops so. -/
  right : ε → Prop

namespace Pairing

variable {ε σ α β α' β' : Type} {P : Pairing ε σ} {φ ψ χ : Layout} {s t : σ}

/-- The outcomes correspond under a layout that continues the given one, if they are compared. -/
inductive Alike (P : Pairing ε σ) (Q : Layout → α → α' → Prop) (φ : Layout) :
    Except ε α × σ → Except ε α' × σ → Prop
  | left {e : ε} {s : σ} {r : Except ε α' × σ} (h : P.left e) : Alike P Q φ (.error e, s) r
  | right {e : ε} {t : σ} {r : Except ε α × σ} (h : P.right e) : Alike P Q φ r (.error e, t)
  | ok {ψ : Layout} {a : α} {a' : α'} {s t : σ} (hle : φ.Le ψ) (hq : Q ψ a a')
      (hst : P.states ψ s t) : Alike P Q φ (.ok a, s) (.ok a', t)
  | error {ψ : Layout} {e e' : ε} {s t : σ} (hle : φ.Le ψ) (h : P.stops ψ (e, s) (e', t)) :
      Alike P Q φ (.error e, s) (.error e', t)

/-- From states that correspond under a layout which continues the given one, the steps have
outcomes that correspond. -/
def InStep (P : Pairing ε σ) (φ : Layout) (Q : Layout → α → α' → Prop)
    (x : ExceptT ε (StateM σ) α) (y : ExceptT ε (StateM σ) α') : Prop :=
  ∀ ⦃ψ⦄, φ.Le ψ → ∀ ⦃s t⦄, P.states ψ s t → P.Alike Q ψ (outcome x s) (outcome y t)

/-- The results are the same, with a property. -/
def Same (p : α → Prop) (_ : Layout) (a a' : α) : Prop :=
  a' = a ∧ p a

/-- The results are the same. -/
abbrev Agree : Layout → α → α → Prop :=
  Same fun _ => True

variable {Q : Layout → α → α' → Prop} {R : Layout → β → β' → Prop} {p : α → Prop}
  {x : ExceptT ε (StateM σ) α} {y : ExceptT ε (StateM σ) α'}

lemma Alike.of_le {r : Except ε α × σ} {r' : Except ε α' × σ} (h : P.Alike Q ψ r r')
    (hle : φ.Le ψ) : P.Alike Q φ r r' := by
  cases h with
  | left h => exact .left h
  | right h => exact .right h
  | ok hle' hq hst => exact .ok (hle.trans hle') hq hst
  | error hle' h => exact .error (hle.trans hle') h

namespace InStep

lemma mono (h : P.InStep φ Q x y) (hle : φ.Le ψ) : P.InStep ψ Q x y :=
  fun _ hle' => h (hle.trans hle')

/-- What corresponding states tell of the layout may be used. -/
lemma of_states (h : ∀ ψ, φ.Le ψ → ∀ s t, P.states ψ s t → P.InStep ψ Q x y) : P.InStep φ Q x y :=
  fun ψ hle s t hst => h ψ hle s t hst (Layout.Le.refl ψ) hst

/-- More may be said of the same results if it holds of those of one step. -/
lemma and {x y : ExceptT ε (StateM σ) α} {q : α → Prop} (h : P.InStep φ (Same p) x y)
    (hx : ∀ s a s', Gives x s a s' → q a) : P.InStep φ (Same fun a => p a ∧ q a) x y := by
  intro ψ hle s t hst
  have hxy := h hle hst
  cases hout : outcome x s with
  | mk r s' =>
    rw [hout] at hxy
    generalize outcome y t = r' at hxy ⊢
    cases hxy with
    | left h => exact .left h
    | right h => exact .right h
    | ok hle' hq hst => exact .ok hle' ⟨hq.1, hq.2, hx s _ s' hout⟩ hst
    | error hle' h => exact .error hle' h

/-! ### Building steps -/

protected lemma pure {a : α} {a' : α'} (h : ∀ ψ, φ.Le ψ → Q ψ a a') :
    P.InStep φ Q (pure a) (pure a') :=
  fun ψ hle _ _ hst => .ok (Layout.Le.refl ψ) (h ψ hle) hst

/-- The same result. -/
lemma same {a : α} (h : p a) : P.InStep φ (Same p) (Pure.pure a) (Pure.pure a) :=
  .pure fun _ _ => ⟨rfl, h⟩

lemma throwLeft {e : ε} (h : P.left e) : P.InStep φ Q (throw e) y :=
  fun _ _ _ _ _ => .left h

lemma throwRight {e : ε} (h : P.right e) : P.InStep φ Q x (throw e) :=
  fun _ _ _ _ _ => .right h

protected lemma throw {e e' : ε}
    (h : ∀ ψ s t, P.states ψ s t → P.stops ψ (e, s) (e', t)) :
    P.InStep φ Q (throw e) (throw e') :=
  fun ψ _ s t hst => .error (Layout.Le.refl ψ) (h ψ s t hst)

protected lemma bind {f : α → ExceptT ε (StateM σ) β} {g : α' → ExceptT ε (StateM σ) β'}
    (h : P.InStep φ Q x y)
    (hfg : ∀ ψ, φ.Le ψ → ∀ a a', Q ψ a a' → P.InStep ψ R (f a) (g a')) :
    P.InStep φ R (x >>= f) (y >>= g) := by
  intro ψ hle s t hst
  rw [outcome_bind, outcome_bind]
  have hxy := h hle hst
  generalize outcome x s = r at hxy ⊢
  generalize outcome y t = r' at hxy ⊢
  cases hxy with
  | left h => exact .left h
  | right h => exact .right h
  | @ok χ a a' _ _ hle' hq hst' =>
    exact (hfg χ (hle.trans hle') a a' hq (Layout.Le.refl χ) hst').of_le hle'
  | error hle' h => exact .error hle' h

/-- What follows steps with the same result. -/
lemma bindSame {x y : ExceptT ε (StateM σ) α} {f : α → ExceptT ε (StateM σ) β}
    {g : α → ExceptT ε (StateM σ) β'} (h : P.InStep φ (Same p) x y)
    (hfg : ∀ ψ, φ.Le ψ → ∀ a, p a → P.InStep ψ R (f a) (g a)) :
    P.InStep φ R (x >>= f) (y >>= g) := by
  refine h.bind fun ψ hle a a' ha => ?_
  obtain ⟨rfl, ha⟩ := ha
  exact hfg ψ hle _ ha

/-- A result of both that is put together from the same results. -/
lemma map {x y : ExceptT ε (StateM σ) α} {p' : β → Prop} (f : α → β)
    (h : P.InStep φ (Same p) x y) (hf : ∀ a, p a → p' (f a)) :
    P.InStep φ (Same p') (x >>= fun a => Pure.pure (f a)) (y >>= fun a => Pure.pure (f a)) :=
  h.bindSame fun _ _ a ha => same (hf a ha)

/-- A step that the second run takes in addition. -/
lemma bindRight {z : ExceptT ε (StateM σ) β'} {g : β' → ExceptT ε (StateM σ) α'}
    (hz : ∀ ψ, φ.Le ψ → ∀ s t, P.states ψ s t →
      (∃ e t', outcome z t = (.error e, t') ∧ P.right e) ∨
      ∃ χ b t', ψ.Le χ ∧ outcome z t = (.ok b, t') ∧ P.states χ s t' ∧ P.InStep χ Q x (g b)) :
    P.InStep φ Q x (z >>= g) := by
  intro ψ hle s t hst
  rw [outcome_bind]
  rcases hz ψ hle s t hst with ⟨e, t', hout, he⟩ | ⟨χ, b, t', hle', hout, hst', hx⟩
  · rw [hout]
    exact .right he
  · rw [hout]
    exact (hx (Layout.Le.refl χ) hst').of_le hle'

lemma ite {c : Prop} [Decidable c] {x' : ExceptT ε (StateM σ) α} {y' : ExceptT ε (StateM σ) α'}
    (h : c → P.InStep φ Q x y) (h' : ¬ c → P.InStep φ Q x' y') :
    P.InStep φ Q (if c then x else x') (if c then y else y') := by
  by_cases hc : c
  · rw [if_pos hc, if_pos hc]
    exact h hc
  · rw [if_neg hc, if_neg hc]
    exact h' hc

/-- Steps that turn the ways in which others stop into further ones. -/
lemma mapError {x' : ExceptT ε (StateM σ) α} {y' : ExceptT ε (StateM σ) α'} {f : ε → ε}
    (h : P.InStep φ Q x y)
    (hx : ∀ s, outcome x' s = ((outcome x s).1.mapError f, (outcome x s).2))
    (hy : ∀ t, outcome y' t = ((outcome y t).1.mapError f, (outcome y t).2))
    (hleft : ∀ e, P.left e → P.left (f e)) (hright : ∀ e, P.right e → P.right (f e))
    (hstops : ∀ ψ e e' s t, P.stops ψ (e, s) (e', t) → P.stops ψ (f e, s) (f e', t)) :
    P.InStep φ Q x' y' := by
  intro ψ hle s t hst
  rw [hx, hy]
  have hxy := h hle hst
  generalize outcome x s = r at hxy ⊢
  generalize outcome y t = r' at hxy ⊢
  cases hxy with
  | left h => exact .left (hleft _ h)
  | right h => exact .right (hright _ h)
  | ok hle' hq hst' => exact .ok hle' hq hst'
  | error hle' h => exact .error hle' (hstops _ _ _ _ _ h)

/-! ### Lists -/

section

variable {ν : Type} {E : ν → ν → Prop} {ns ns' : List ν}

lemma mapM {f g : ν → ExceptT ε (StateM σ) α}
    (hfg : ∀ n n', E n n' → P.InStep φ (Same p) (f n) (g n')) (h : List.Forall₂ E ns ns') :
    P.InStep φ (Same fun as => ∀ a ∈ as, p a) (ns.mapM f) (ns'.mapM g) := by
  induction h with
  | nil => exact same (List.forall_mem_nil _)
  | cons hn _ ih =>
    rw [List.mapM_cons, List.mapM_cons]
    refine (hfg _ _ hn).bindSame fun ψ hle a ha => ?_
    exact (ih.mono hle).map (a :: ·) fun as has => List.forall_mem_cons.2 ⟨ha, has⟩

lemma forM {f g : ν → ExceptT ε (StateM σ) PUnit}
    (hfg : ∀ n n', E n n' → P.InStep φ Agree (f n) (g n'))
    (h : List.Forall₂ E ns ns') : P.InStep φ Agree (ns.forM f) (ns'.forM g) := by
  induction h with
  | nil => exact same trivial
  | cons hn _ ih => exact (hfg _ _ hn).bindSame fun ψ hle _ _ => ih.mono hle

end

end InStep

/-! ### Depth -/

/-- The runs stop so where they are nested too deeply, which is compared as the allowance says. -/
structure Deep (P : Pairing ε σ) (A : Allowance) (e : ε) : Prop where
  left : A.left → P.left e
  right : A.right → P.right e
  stops (ψ : Layout) (s t : σ) : P.states ψ s t → P.stops ψ (e, s) (e, t)

namespace Deep

variable {A : Allowance} {e : ε} {f : Nat → ExceptT ε (StateM σ) α}
  {g : Nat → ExceptT ε (StateM σ) α'} {d d' : Nat} (hdeep : P.Deep A e) (hb : A.Budget d d')

include hdeep hb

/-- Rules that need depths `k` and `k'`. A run without it is nested too deeply, so it is enough to
compare the rules where both runs have it. -/
lemma of_depth {k k' : Nat} (hk : k ≤ k' ∧ k' ≤ 5 * k) (hf : ∀ d < k, f d = throw e)
    (hg : ∀ d < k', g d = throw e) (h : k ≤ d → k' ≤ d' → P.InStep φ Q (f d) (g d')) :
    P.InStep φ Q (f d) (g d') := by
  by_cases hd : k ≤ d
  · by_cases hd' : k' ≤ d'
    · exact h hd hd'
    · rw [hg d' (by omega)]
      exact .throwRight (hdeep.right (hb.right.resolve_right (by omega)))
  · rw [hf d (by omega)]
    rcases hb.left with hleft | hle
    · exact .throwLeft (hdeep.left hleft)
    · rw [hg d' (by omega)]
      exact .throw hdeep.stops

/-- Rules that need one unit of depth. -/
lemma of_succ (hf : f 0 = throw e) (hg : g 0 = throw e)
    (h : ∀ c c', d = c + 1 → d' = c' + 1 → P.InStep φ Q (f (c + 1)) (g (c' + 1))) :
    P.InStep φ Q (f d) (g d') := by
  refine hdeep.of_depth hb (by decide : 1 ≤ 1 ∧ 1 ≤ 5) ?_ ?_ fun hd hd' => ?_
  · intro d hd
    rw [Nat.lt_one_iff.1 hd, hf]
  · intro d hd
    rw [Nat.lt_one_iff.1 hd, hg]
  · obtain ⟨c, rfl⟩ := Nat.exists_eq_add_of_le' hd
    obtain ⟨c', rfl⟩ := Nat.exists_eq_add_of_le' hd'
    exact h c c' rfl rfl

/-- Rules that need one unit of depth and rest on what is known of smaller depths. -/
lemma of_below {S : Nat → Nat → Prop} (hS : ∀ c < d, ∀ c', A.Budget c c' → S c c')
    (hf : f 0 = throw e) (hg : g 0 = throw e)
    (h : ∀ c c', S c c' → P.InStep φ Q (f (c + 1)) (g (c' + 1))) : P.InStep φ Q (f d) (g d') := by
  refine hdeep.of_succ hb hf hg fun c c' hc hc' => h c c' ?_
  subst hc hc'
  exact hS c (Nat.lt_succ_self c) c' hb.pred

end Deep

end Pairing

end LetDef
