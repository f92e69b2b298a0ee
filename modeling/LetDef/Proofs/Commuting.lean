import LetDef.Proofs.Outcome

/-!
# Steps that commute with a change

A change maps the states of a step and the reasons why it may stop. `Commutes c f x y` says that `y`
does from a changed state what `x` does from the state: it leaves the changed state behind, and it
yields the result mapped by `f` or stops for the changed reason. Each way to build a step has a rule
here.
-/

namespace LetDef

variable {ε σ α β γ δ : Type}

/-- A map of reasons to stop and of states. -/
structure Change (ε σ : Type) where
  error : ε → ε
  state : σ → σ

/-- From a changed state `y` does what `x` does from the state, but changed. -/
def Commutes (c : Change ε σ) (f : α → β) (x : ExceptT ε (StateM σ) α)
    (y : ExceptT ε (StateM σ) β) : Prop :=
  ∀ s, outcome y (c.state s) =
    ((outcome x s).1.map f |>.mapError c.error, c.state (outcome x s).2)

variable {c : Change ε σ} {f : α → β} {g : γ → δ} {x x' : ExceptT ε (StateM σ) α}
  {y y' : ExceptT ε (StateM σ) β}

lemma commutes_pure (f : α → β) (a : α) :
    Commutes c f (pure a : ExceptT ε (StateM σ) α) (pure (f a)) :=
  fun _ => rfl

lemma commutes_throw (f : α → β) (e : ε) :
    Commutes c f (throw e : ExceptT ε (StateM σ) α) (throw (c.error e)) :=
  fun _ => rfl

lemma Commutes.bind {k : α → ExceptT ε (StateM σ) γ} {l : β → ExceptT ε (StateM σ) δ}
    (h : Commutes c f x y) (hk : ∀ a, Commutes c g (k a) (l (f a))) :
    Commutes c g (x >>= k) (y >>= l) := by
  intro s
  rw [outcome_bind, outcome_bind, h s]
  rcases outcome x s with ⟨e | a, t⟩
  · rfl
  · exact hk a t

lemma Commutes.ite {p : Prop} [Decidable p] (h : Commutes c f x y) (h' : Commutes c f x' y') :
    Commutes c f (if p then x else x') (if p then y else y') := by
  split
  · exact h
  · exact h'

/-- One of two steps, and what follows either. -/
lemma Commutes.iteBind {p : Prop} [Decidable p] {k : α → ExceptT ε (StateM σ) γ}
    {l : β → ExceptT ε (StateM σ) δ} (h : Commutes c f x y) (h' : Commutes c f x' y')
    (hk : ∀ a, Commutes c g (k a) (l (f a))) :
    Commutes c g (if p then x >>= k else x' >>= k) (if p then y >>= l else y' >>= l) :=
  Commutes.ite (h.bind hk) (h'.bind hk)

/-- A step that is done under a condition, and what follows either way. -/
lemma Commutes.whenBind {p : Prop} [Decidable p] {k : ExceptT ε (StateM σ) γ}
    {l : ExceptT ε (StateM σ) δ} (h : Commutes c f x y) (hk : Commutes c g k l) :
    Commutes c g (if p then x >>= fun _ => k else k) (if p then y >>= fun _ => l else l) :=
  Commutes.ite (h.bind fun _ => hk) hk

lemma Commutes.tryCatch {k : ε → ExceptT ε (StateM σ) α} {l : ε → ExceptT ε (StateM σ) β}
    (h : Commutes c f x y) (hk : ∀ e, Commutes c f (k e) (l (c.error e))) :
    Commutes c f (tryCatch x k) (tryCatch y l) := by
  intro s
  rw [outcome_tryCatch, outcome_tryCatch, h s]
  rcases outcome x s with ⟨e | a, t⟩
  · exact hk e t
  · rfl

/-- What follows a look at the state may depend on it. -/
lemma commutes_get {k : σ → ExceptT ε (StateM σ) α} {l : σ → ExceptT ε (StateM σ) β}
    (hk : ∀ s, Commutes c f (k s) (l (c.state s))) : Commutes c f (get >>= k) (get >>= l) :=
  fun s => hk s s

lemma commutes_modify {k l : σ → σ} (h : ∀ s, l (c.state s) = c.state (k s)) :
    Commutes c id (modify k : ExceptT ε (StateM σ) PUnit) (modify l) := by
  intro s
  rw [outcome_modify, outcome_modify, h]
  rfl

lemma commutes_modifyGet {k : σ → α × σ} {l : σ → β × σ}
    (h : ∀ s, l (c.state s) = (f (k s).1, c.state (k s).2)) :
    Commutes c f (modifyGet k : ExceptT ε (StateM σ) α) (modifyGet l) := by
  intro s
  rw [outcome_modifyGet, outcome_modifyGet, h]
  rfl

/-- Steps for the items of a list, where the items of the other list are mapped. -/
lemma Commutes.mapM {i : α → β} {k : α → ExceptT ε (StateM σ) γ} {l : β → ExceptT ε (StateM σ) δ}
    {as : List α} (h : ∀ a, Commutes c g (k a) (l (i a))) :
    Commutes c (List.map g) (as.mapM k) ((as.map i).mapM l) := by
  induction as with
  | nil => exact commutes_pure _ []
  | cons a as ih =>
    rw [List.map_cons, List.mapM_cons, List.mapM_cons]
    exact (h a).bind fun b => ih.bind fun bs => commutes_pure _ (b :: bs)

lemma Commutes.forM {i : α → β} {k : α → ExceptT ε (StateM σ) PUnit}
    {l : β → ExceptT ε (StateM σ) PUnit} {as : List α}
    (h : ∀ a, Commutes c id (k a) (l (i a))) :
    Commutes c id (as.forM k) ((as.map i).forM l) := by
  induction as with
  | nil => exact commutes_pure id PUnit.unit
  | cons a as ih => exact (h a).bind fun _ => ih

end LetDef
