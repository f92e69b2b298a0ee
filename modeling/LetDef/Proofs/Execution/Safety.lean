import LetDef.Proofs.Execution.Invariant

/-!
# Safe steps

A step is safe if it keeps the invariant and stops only for a reason that a typed program may have:
nil where a truth value or an operand is needed, comparable operands of different kinds, a zero
divisor, or one of the limits on digits, depth and loops. Each step of a run has a rule here.
-/

namespace LetDef.Execution.Setting

open LetDef.Typing

/-- The run of a typed program may stop so after the moments of the journal. -/
inductive Excused (root : Node) (final : Analysis.State) (j : Journal) : Halt → Prop
  | tooDeep : Excused root final j .tooDeep
  | tooManyDigits : Excused root final j .tooManyDigits
  | outOfFuel : Excused root final j .outOfFuel
  | divisionByZero {site : Site} : Excused root final j (.fault ⟨.divisionByZero, site⟩)
  | notBoolean {n : Node} {o : Object} (hn : Noted root final n .boolean)
      (ho : Latest j (.evaluated n o)) (hnil : o.value = .nil) :
      Excused root final j (.fault ⟨.notBoolean o.value, n.site⟩)
  | invalidOperands {m : Mark} {operator : String} {left right : Node} {l r : Ty} {a b : Object}
      (hb : root.Below (.binary m operator left right)) (hl : final.typeOf? left = some l)
      (hr : final.typeOf? right = some r) (ha : Occurs j (.evaluated left a))
      (hb' : Latest j (.evaluated right b)) (h : Mismatch operator l r a.value b.value) :
      Excused root final j
        (.fault ⟨.invalidOperands operator a.value b.value, ⟨some .binary, m.position⟩⟩)

/-- From the world `w`, in which the invariant holds, the step yields a result with `post` and keeps
the invariant, adding variables at most to `own` and to new frames, or it stops as it may. -/
def Safe {α : Type} (S : Setting) (own : Option FrameId) (post : α → World → Prop) (x : Run α)
    (w : World) : Prop :=
  Ends (fun a w₁ => S.Inv w₁ ∧ Step own w w₁ ∧ post a w₁)
    (fun h w₁ => Excused S.root S.final w₁.log h ∧ Tracked S.root S.final w₁) x w

variable {α β : Type} {S : Setting} {w w₁ : World} {own : Option FrameId} {site : Site}
  {post : α → World → Prop} {x : Run α} {origin : Origin} {ref : VariableRef} {v : Variable}
  {outer block bs : List Binding} {scope : Scope} {name : String} {t : Ty} {e : Event} {s : Store}

/-! ### Building steps -/

lemma safe_pure {a : α} (hi : S.Inv w) (h : post a w) : S.Safe own post (pure a) w :=
  ends_pure ⟨hi, .refl own w, h⟩

lemma safe_throw {h : Halt} (hi : S.Inv w) (he : Excused S.root S.final w.log h) :
    S.Safe own post (throw h : Run α) w :=
  ends_throw ⟨he, hi.toTracked⟩

lemma safe_tooDeep (hi : S.Inv w) : S.Safe own post (tooDeep : Run α) w :=
  safe_throw hi .tooDeep

lemma Safe.bind {f : α → Run β} {post' : β → World → Prop} (h : S.Safe own post x w)
    (hf : ∀ a w₁, S.Inv w₁ → Step own w w₁ → post a w₁ → S.Safe own post' (f a) w₁) :
    S.Safe own post' (x >>= f) w := by
  refine ends_bind (Ends.imp h ?_ fun _ _ hs => hs)
  rintro a w₁ ⟨hi, hs, hp⟩
  refine Ends.imp (hf a w₁ hi hs hp) ?_ fun _ _ hs => hs
  rintro b w₂ ⟨hi₂, hs₂, hp₂⟩
  exact ⟨hi₂, hs.trans hs₂, hp₂⟩

lemma Safe.imp {post' : α → World → Prop} (h : S.Safe own post x w)
    (hp : ∀ a w₁, Step own w w₁ → post a w₁ → post' a w₁) : S.Safe own post' x w := by
  refine Ends.imp h ?_ fun _ _ hs => hs
  rintro a w₁ ⟨hi, hs, hpost⟩
  exact ⟨hi, hs, hp a w₁ hs hpost⟩

lemma Safe.weaken (h : S.Safe none post x w) (own : Option FrameId) : S.Safe own post x w := by
  refine Ends.imp h ?_ fun _ _ hs => hs
  rintro a w₁ ⟨hi, hs, hpost⟩
  exact ⟨hi, hs.weaken own, hpost⟩

/-- A step that adds to no frame leaves a scope as it is. -/
lemma Safe.holding (h : S.Safe none post x w) (hh : Holds outer block scope w) :
    S.Safe (some scope.frame) (fun a w₁ => post a w₁ ∧ Holds outer block scope w₁) x w := by
  refine Safe.weaken (h.imp ?_) _
  intro a w₁ hs hp
  exact ⟨hp, hh.step hs (by simp)⟩

lemma Safe.inside (h : S.Safe none post x w) (hin : Inside outer block scope w) :
    S.Safe (some scope.frame) (fun a w₁ => post a w₁ ∧ Inside outer block scope w₁) x w :=
  (h.holding hin.toHolds).imp fun _ _ _ hp => ⟨hp.1, hp.2, hin.inner⟩

/-! ### Events -/

/-- The invariant lasts while the present is typed and the fields are seen. -/
lemma Inv.seeing (hi : S.Inv w) (ht : Tracked S.root S.final w₁) (hs : Step own w w₁)
    (hf : Sees S.globals ⟨0, []⟩ w₁) : S.Inv w₁ where
  toTracked := ht
  functions := by
    rw [hs.store.functions]
    exact hi.functions
  others i h0 := by
    rw [hs.store.functions]
    exact hi.others i h0
  fields := hf

/-- The fields are seen while the outermost frame gets no variables. -/
lemma Inv.step (hi : S.Inv w) (ht : Tracked S.root S.final w₁) (hs : Step own w w₁)
    (hown : own ≠ some 0) : S.Inv w₁ := by
  refine hi.seeing ht hs (hi.fields.step hs ?_)
  intro i h0
  rw [List.mem_singleton.1 h0]
  exact hown

/-- The invariant holds after an event that leaves all variables as they are. -/
lemma Inv.after_same (hi : S.Inv w) (he : e.Typed S.root S.final)
    (hnot : ∀ origin ref, e ≠ .created origin ref) (hg : w.store.Grows none s)
    (hs : ∀ ref, s.getVariable? ref = w.store.getVariable? ref) :
    S.Inv (w.after e s) ∧ Step none w (w.after e s) := by
  have hstep : Step none w (w.after e s) := ⟨hg, hi.suffix_after⟩
  exact ⟨hi.step (hi.toTracked.after_same he hnot hs) hstep (by simp), hstep⟩

lemma safe_note (hi : S.Inv w) (he : e.Typed S.root S.final)
    (hnot : ∀ origin ref, e ≠ .created origin ref) :
    S.Safe none (fun _ w₁ => Latest w₁.log e) (note e) w := by
  obtain ⟨hi₁, hs⟩ := hi.after_same he hnot (.refl none w.store) fun _ => rfl
  unfold Safe Ends
  rw [outcome_note]
  exact ⟨hi₁, hs, w.store, w.log, hi.log_after⟩

/-- A step is recorded with what it yields. -/
lemma Safe.recording {event : α → Event} {result : α → Prop}
    (h : S.Safe own (fun a _ => result a) x w)
    (he : ∀ a, result a → (event a).Typed S.root S.final)
    (hnot : ∀ a origin ref, event a ≠ .created origin ref) :
    S.Safe own (fun a w₁ => result a ∧ Latest w₁.log (event a)) (recording event x) w := by
  unfold Execution.recording
  refine h.bind fun a w₁ hi _ ha => ?_
  refine ((safe_note hi (he a ha) (hnot a)).weaken own).bind fun _ w₂ hi₂ _ hlatest => ?_
  exact safe_pure hi₂ ⟨ha, hlatest⟩

/-! ### Variables and scopes -/

lemma safe_lookup {find : Store → Except NameError α} {a : α} (hi : S.Inv w)
    (hf : find w.store = .ok a) : S.Safe own (fun b w₁ => b = a ∧ w₁ = w) (lookup site find) w := by
  unfold Safe Ends
  rw [outcome_lookup, hf]
  exact ⟨hi, .refl own w, rfl, rfl⟩

/-- A variable is made in a scope for an origin that gives it its type, while the fields of the
setting are seen. -/
lemma safe_addVariable (hi : S.Inv w) (hh : Holds outer block scope w)
    (ha : Adds S.final block v.name origin t v.constant) (hv : t.Admits v.value.value)
    (hf : ∀ w₁, Step (some scope.frame) w w₁ → Sees S.globals ⟨0, []⟩ w₁) :
    S.Safe (some scope.frame) (fun _ w₁ => Holds outer ((v.name, origin) :: block) scope w₁)
      (addVariable site origin scope v) w := by
  have hnew := hh.fresh ha.fresh
  have hsize := hh.size scope.frame (List.mem_cons_self ..)
  have hstep : Step (some scope.frame) w (w.after (.created origin ⟨scope.frame, v.name⟩)
      (w.store.addVariable scope v)) :=
    ⟨Store.grows_addVariable hsize, hi.suffix_after⟩
  unfold Safe Ends
  rw [outcome_addVariable hnew]
  exact ⟨hi.seeing (hi.toTracked.addVariable hsize hnew ha.cell hv) hstep (hf _ hstep), hstep,
    hh.add hnew hi.log_after rfl⟩

/-- A variable of a method is none of the fields. -/
lemma safe_addLocal (hi : S.Inv w) (hin : Inside outer block scope w)
    (ha : Adds S.final block v.name origin t v.constant) (hv : t.Admits v.value.value) :
    S.Safe (some scope.frame) (fun _ w₁ => Inside outer ((v.name, origin) :: block) scope w₁)
      (addVariable site origin scope v) w := by
  refine (safe_addVariable hi hin.toHolds ha hv ?_).imp fun _ w₁ _ hh => ⟨hh, hin.inner⟩
  intro w₁ hstep
  refine hi.fields.step hstep ?_
  intro i h0
  rw [List.mem_singleton.1 h0]
  simpa using hin.inner

/-- A variable that is no constant is given an object of its type. -/
lemma safe_store {access : Node} {o : Object} (hi : S.Inv w)
    (hc : Created w.log origin ref) (hv : w.store.getVariable? ref = some v)
    (hcell : S.final.cell? origin = some (t, false)) (ho : t.Admits o.value) :
    S.Safe none (fun _ _ => True) (store site scope access ref v o) w := by
  have hconstant : v.constant = false := by
    obtain ⟨t', v', hcell', hv', _⟩ := hi.cells.typed origin ref hc
    rw [hv] at hv'
    cases hv'
    rw [hcell] at hcell'
    simp only [Option.some.injEq, Prod.mk.injEq] at hcell'
    exact hcell'.2.symm
  have hstep : Step none w (w.after (.assigned scope access ref) (w.store.setVariable ref o)) :=
    ⟨Store.grows_setVariable hv, hi.suffix_after⟩
  unfold Execution.store Safe Ends
  rw [hconstant, Bool.false_and, if_neg (by simp), outcome_modifyStore]
  refine ⟨hi.step (hi.toTracked.setVariable hc hv ?_ ho) hstep (by simp), hstep, trivial⟩
  rw [hcell, hconstant]

/-- What is done in a new scope adds nothing to the frames that were there before. -/
lemma safe_enter {f : Scope → Run α} {result : α → Prop} (hi : S.Inv w) (hs : Sees bs scope w)
    (hf : ∀ scope₁ w₁, S.Inv w₁ → Inside bs [] scope₁ w₁ →
      S.Safe (some scope₁.frame) (fun a _ => result a) (f scope₁) w₁) :
    S.Safe none (fun a _ => result a) (enter scope >>= f) w := by
  have hsame (ref) :
      (w.store.enter (some scope)).2.getVariable? ref = w.store.getVariable? ref := by
    rw [Store.getVariable?, Store.frame_enter]
    rfl
  obtain ⟨hi₁, hstep⟩ := hi.after_same (e := .entered (w.store.enter (some scope)).1) trivial
    (by simp) (Store.grows_enter (some scope)) hsame
  have hin := hs.enter hstep.log rfl
  refine ends_bind ?_
  unfold Ends
  rw [outcome_enter]
  refine Ends.imp (hf _ _ hi₁ hin) ?_ fun _ _ h => h
  rintro a w₂ ⟨hi₂, hstep₂, ha⟩
  exact ⟨hi₂, ⟨.of_enter (some scope) hstep₂.store, hstep.log.trans hstep₂.log⟩, ha⟩

end LetDef.Execution.Setting
