import Mathlib.Tactic.Common

/-!
# Outcomes of steps

Analysis and execution are made of steps that change a state and may stop, and the change lasts also
when they stop. `Gives` says that a step succeeds, `Halts` that it does not, and `Ends` says what
holds however it ends. Each way to build a step has a rule here, so that later proofs do not open
the monad.
-/

namespace LetDef

variable {ε σ α β : Type}

/-- What a step ends with, and the state that it leaves. -/
def outcome (x : ExceptT ε (StateM σ) α) (s : σ) : Except ε α × σ :=
  (x.run s).run

/-- The step yields `a` and turns the state `s` into `t`. -/
def Gives (x : ExceptT ε (StateM σ) α) (s : σ) (a : α) (t : σ) : Prop :=
  outcome x s = (.ok a, t)

/-- The step stops with `e` and turns the state `s` into `t`. -/
def Halts (x : ExceptT ε (StateM σ) α) (s : σ) (e : ε) (t : σ) : Prop :=
  outcome x s = (.error e, t)

/-- From the state `s` the step either yields a result with `done` or stops with `stopped`. -/
def Ends (done : α → σ → Prop) (stopped : ε → σ → Prop) (x : ExceptT ε (StateM σ) α) (s : σ) :
    Prop :=
  match outcome x s with
  | (.ok a, t) => done a t
  | (.error e, t) => stopped e t

/-! ### Outcomes -/

section

variable {s t : σ} {a b : α}

lemma outcome_pure : outcome (pure a : ExceptT ε (StateM σ) α) s = (.ok a, s) :=
  rfl

lemma outcome_get : outcome (get : ExceptT ε (StateM σ) σ) s = (.ok s, s) :=
  rfl

lemma outcome_set : outcome (set t : ExceptT ε (StateM σ) PUnit) s = (.ok ⟨⟩, t) :=
  rfl

lemma outcome_modify {f : σ → σ} :
    outcome (modify f : ExceptT ε (StateM σ) PUnit) s = (.ok ⟨⟩, f s) :=
  rfl

lemma outcome_modifyGet {f : σ → α × σ} :
    outcome (modifyGet f : ExceptT ε (StateM σ) α) s = (.ok (f s).1, (f s).2) :=
  rfl

lemma outcome_bind {x : ExceptT ε (StateM σ) α} {f : α → ExceptT ε (StateM σ) β} :
    outcome (x >>= f) s =
      match outcome x s with
      | (.ok a, t) => outcome (f a) t
      | (.error e, t) => (.error e, t) := by
  change (match outcome x s with | (r, t) => outcome (.mk (ExceptT.bindCont f r)) t) = _
  rcases outcome x s with ⟨_ | _, _⟩ <;> rfl

lemma outcome_tryCatch {x : ExceptT ε (StateM σ) α} {f : ε → ExceptT ε (StateM σ) α} :
    outcome (tryCatch x f) s =
      match outcome x s with
      | (.ok a, t) => (.ok a, t)
      | (.error e, t) => outcome (f e) t := by
  change (match outcome x s with
    | (r, t) => outcome (.mk (match r with | .ok a => pure (.ok a) | .error e => (f e).run)) t) = _
  rcases outcome x s with ⟨_ | _, _⟩ <;> rfl

/-- A step is known by what it ends with. -/
lemma outcome_ext {x y : ExceptT ε (StateM σ) α} (h : ∀ s, outcome x s = outcome y s) : x = y :=
  funext h

/-! ### Success -/

lemma gives_pure : Gives (pure a : ExceptT ε (StateM σ) α) s b t ↔ b = a ∧ t = s := by
  unfold Gives
  rw [outcome_pure]
  constructor
  · intro h
    cases h
    exact ⟨rfl, rfl⟩
  · rintro ⟨rfl, rfl⟩
    rfl

lemma gives_bind {x : ExceptT ε (StateM σ) α} {f : α → ExceptT ε (StateM σ) β} {b : β} :
    Gives (x >>= f) s b t ↔ ∃ a u, Gives x s a u ∧ Gives (f a) u b t := by
  unfold Gives
  rw [outcome_bind]
  rcases h : outcome x s with ⟨e | a, u⟩
  · constructor
    · intro h'
      cases h'
    · rintro ⟨a, u, h', _⟩
      cases h'
  · constructor
    · intro h'
      exact ⟨a, u, rfl, h'⟩
    · rintro ⟨a, u, h', hf⟩
      cases h'
      exact hf

/-- A step that is only done under a condition, and what follows either way. -/
lemma gives_ite_bind {c : Prop} [Decidable c] {x : ExceptT ε (StateM σ) PUnit}
    {f : PUnit → ExceptT ε (StateM σ) α} :
    Gives (if c then x >>= f else f ⟨⟩) s a t ↔
      ∃ u, Gives (if c then x else pure ⟨⟩) s ⟨⟩ u ∧ Gives (f ⟨⟩) u a t := by
  by_cases hc : c
  · rw [if_pos hc, if_pos hc, gives_bind]
    constructor
    · rintro ⟨_, u, hx, hf⟩
      exact ⟨u, hx, hf⟩
    · rintro ⟨u, hx, hf⟩
      exact ⟨⟨⟩, u, hx, hf⟩
  · rw [if_neg hc, if_neg hc]
    constructor
    · intro hf
      exact ⟨s, gives_pure.2 ⟨rfl, rfl⟩, hf⟩
    · rintro ⟨u, hx, hf⟩
      obtain ⟨_, rfl⟩ := gives_pure.1 hx
      exact hf

lemma exists_gives {x : ExceptT ε (StateM σ) α} (h : (outcome x s).1.toOption.isSome = true) :
    ∃ a, Gives x s a (outcome x s).2 := by
  unfold Gives
  rcases hx : outcome x s with ⟨e | a, t⟩
  · rw [hx] at h
    cases h
  · exact ⟨a, rfl⟩

lemma not_gives_throw {e : ε} : ¬ Gives (throw e : ExceptT ε (StateM σ) α) s a t := by
  intro h
  cases h

lemma gives_get {u : σ} : Gives (get : ExceptT ε (StateM σ) σ) s u t ↔ u = s ∧ t = s :=
  gives_pure

lemma gives_set {u : σ} {r : PUnit} : Gives (set u : ExceptT ε (StateM σ) PUnit) s r t ↔ t = u := by
  unfold Gives
  rw [outcome_set]
  constructor
  · intro h
    cases h
    rfl
  · rintro rfl
    rfl

lemma gives_modifyGet {f : σ → α × σ} :
    Gives (modifyGet f : ExceptT ε (StateM σ) α) s a t ↔ f s = (a, t) := by
  unfold Gives
  rw [outcome_modifyGet]
  constructor
  · intro h
    cases h
    rfl
  · intro h
    rw [h]

/-! ### Failure -/

lemma halts_bind {x : ExceptT ε (StateM σ) α} {f : α → ExceptT ε (StateM σ) β} {e : ε} :
    Halts (x >>= f) s e t ↔ Halts x s e t ∨ ∃ a u, Gives x s a u ∧ Halts (f a) u e t := by
  unfold Halts Gives
  rw [outcome_bind]
  rcases h : outcome x s with ⟨e' | a, u⟩
  · constructor
    · intro h'
      cases h'
      exact .inl rfl
    · rintro (h' | ⟨a, u, h', _⟩)
      · cases h'
        rfl
      · cases h'
  · constructor
    · intro h'
      exact .inr ⟨a, u, rfl, h'⟩
    · rintro (h' | ⟨a, u, h', hf⟩)
      · cases h'
      · cases h'
        exact hf

lemma not_halts_pure {e : ε} : ¬ Halts (pure a : ExceptT ε (StateM σ) α) s e t := by
  intro h
  cases h

/-- A step for each member of a list stops at one of them, after those before. -/
lemma halts_forM {f : β → ExceptT ε (StateM σ) PUnit} {bs : List β} {e : ε} :
    Halts (bs.forM f) s e t ↔
      ∃ i b u, bs[i]? = some b ∧ Gives ((bs.take i).forM f) s ⟨⟩ u ∧ Halts (f b) u e t := by
  induction bs generalizing s with
  | nil =>
    constructor
    · exact fun h => absurd h not_halts_pure
    · rintro ⟨i, b, u, hb, _⟩
      cases hb
  | cons c cs ih =>
    refine halts_bind.trans ?_
    constructor
    · rintro (h | ⟨_, u, hc, h⟩)
      · exact ⟨0, c, s, rfl, gives_pure.2 ⟨rfl, rfl⟩, h⟩
      · obtain ⟨i, b, v, hb, hbefore, hhalts⟩ := ih.1 h
        exact ⟨i + 1, b, v, hb, gives_bind.2 ⟨_, u, hc, hbefore⟩, hhalts⟩
    · rintro ⟨i, b, v, hb, hbefore, hhalts⟩
      cases i with
      | zero =>
        cases hb
        obtain ⟨_, rfl⟩ := gives_pure.1 hbefore
        exact .inl hhalts
      | succ i =>
        obtain ⟨_, u, hc, hrest⟩ := gives_bind.1 hbefore
        exact .inr ⟨_, u, hc, ih.2 ⟨i, b, v, hb, hrest, hhalts⟩⟩

/-! ### Every end -/

variable {done : α → σ → Prop} {stopped : ε → σ → Prop}

lemma ends_pure (h : done a s) : Ends done stopped (pure a) s :=
  h

lemma ends_throw {e : ε} (h : stopped e s) : Ends done stopped (throw e) s :=
  h

lemma ends_bind {x : ExceptT ε (StateM σ) β} {f : β → ExceptT ε (StateM σ) α}
    (h : Ends (fun b t => Ends done stopped (f b) t) stopped x s) :
    Ends done stopped (x >>= f) s := by
  unfold Ends at h ⊢
  rw [outcome_bind]
  rcases hx : outcome x s with ⟨e | b, t⟩
  · rw [hx] at h
    exact h
  · rw [hx] at h
    exact h

/-- What follows a choice of steps may be taken out of it. -/
lemma ends_ite_bind {c : Prop} [Decidable c] {x y : ExceptT ε (StateM σ) β}
    {f : β → ExceptT ε (StateM σ) α} (h : Ends done stopped ((if c then x else y) >>= f) s) :
    Ends done stopped (if c then x >>= f else y >>= f) s := by
  by_cases hc : c
  · rw [if_pos hc] at h ⊢
    exact h
  · rw [if_neg hc] at h ⊢
    exact h

lemma ends_tryCatch {x : ExceptT ε (StateM σ) α} {f : ε → ExceptT ε (StateM σ) α}
    (h : Ends done (fun e t => Ends done stopped (f e) t) x s) :
    Ends done stopped (tryCatch x f) s := by
  unfold Ends at h ⊢
  rw [outcome_tryCatch]
  rcases hx : outcome x s with ⟨e | a, t⟩
  · rw [hx] at h
    exact h
  · rw [hx] at h
    exact h

/-- What holds however a step ends may be weakened. -/
lemma Ends.imp {x : ExceptT ε (StateM σ) α} {done' : α → σ → Prop} {stopped' : ε → σ → Prop}
    (h : Ends done stopped x s) (hd : ∀ a t, done a t → done' a t)
    (hs : ∀ e t, stopped e t → stopped' e t) : Ends done' stopped' x s := by
  unfold Ends at h ⊢
  rcases hx : outcome x s with ⟨e | a, t⟩
  · rw [hx] at h
    exact hs e t h
  · rw [hx] at h
    exact hd a t h

lemma Ends.bind {x : ExceptT ε (StateM σ) β} {f : β → ExceptT ε (StateM σ) α}
    {done' : β → σ → Prop} (h : Ends done' stopped x s)
    (hf : ∀ b t, done' b t → Ends done stopped (f b) t) : Ends done stopped (x >>= f) s :=
  ends_bind (h.imp hf fun _ _ hs => hs)

/-- What holds of the state however a step ends holds of the state that it leaves. -/
lemma Ends.state {x : ExceptT ε (StateM σ) α} {P : σ → Prop}
    (h : Ends (fun _ t => P t) (fun _ t => P t) x s) : P (outcome x s).2 := by
  unfold Ends at h
  rcases hx : outcome x s with ⟨e | a, t⟩
  · rwa [hx] at h
  · rwa [hx] at h

end

end LetDef
