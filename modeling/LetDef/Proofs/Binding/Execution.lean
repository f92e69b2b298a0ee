import LetDef.Proofs.Binding.Invariant
import LetDef.Proofs.Execution.Native

/-!
# Evaluation agrees with decorations

Every step of a run keeps the invariant, and the moments that it records agree with the decorations.
The proof is by induction on the depth to which the rules of evaluation may be nested. A rule needs
the others at smaller depths only, and loops go by an induction of their own on their fuel.
-/

namespace LetDef.Stage

open Execution

/-- From the world `w` the step keeps the invariant and yields a result with `post`. It adds
variables at most to `own` and to new frames. Where it stops, its moments agree with the
decorations. -/
def Keeps {α : Type} (S : Stage) (own : Option FrameId) (post : α → World → Prop) (x : Run α)
    (w : World) : Prop :=
  Ends (fun a w₁ => S.Inv w₁ ∧ Step own w w₁ ∧ post a w₁) (fun _ w₁ => S.Faithful w₁) x w

variable {N : Natives} {α β : Type} {S : Stage} {w w₁ : World} {own : Option FrameId} {site : Site}
  {post : α → World → Prop} {x : Run α} {around : Surroundings} {scope : Scope} {n : Node}
  {name : String} {mark : Mark} {e : Event} {fuel depth : Nat}

/-! ### Building steps -/

lemma keeps_pure {a : α} (hi : S.Inv w) (h : post a w) : S.Keeps own post (pure a) w :=
  ends_pure ⟨hi, .refl own w, h⟩

lemma keeps_throw {h : Halt} (hi : S.Inv w) : S.Keeps own post (throw h : Run α) w :=
  ends_throw hi.toFaithful

lemma keeps_fail {cause : Cause} (hi : S.Inv w) : S.Keeps own post (fail site cause : Run α) w :=
  keeps_throw hi

lemma keeps_tooDeep (hi : S.Inv w) : S.Keeps own post (tooDeep : Run α) w :=
  keeps_throw hi

lemma Keeps.bind {f : α → Run β} {post' : β → World → Prop} (h : S.Keeps own post x w)
    (hf : ∀ a w₁, S.Inv w₁ → Step own w w₁ → post a w₁ → S.Keeps own post' (f a) w₁) :
    S.Keeps own post' (x >>= f) w := by
  refine Ends.bind h ?_
  rintro a w₁ ⟨hi, hs, hp⟩
  refine Ends.imp (hf a w₁ hi hs hp) ?_ fun _ _ hs => hs
  rintro b w₂ ⟨hi₂, hs₂, hp₂⟩
  exact ⟨hi₂, hs.trans hs₂, hp₂⟩

/-- A step that is refused under a condition. -/
lemma keeps_unless {c : Prop} [Decidable c] {cause : Cause} (hi : S.Inv w)
    (h : S.Keeps own post x w) :
    S.Keeps own post (if c then (do
      fail site cause
      x) else x) w := by
  by_cases hc : c
  · rw [if_pos hc]
    exact ends_bind (ends_throw hi.toFaithful)
  · rw [if_neg hc]
    exact h

/-- A step that adds to no frame leaves a scope as it is. -/
lemma Keeps.inside (h : S.Keeps none post x w) (hin : S.Inside around scope w) :
    S.Keeps (some scope.frame) (fun _ w₁ => S.Inside around scope w₁) x w := by
  refine Ends.imp h ?_ fun _ _ hs => hs
  rintro a w₁ ⟨hi, hs, _⟩
  exact ⟨hi, hs.weaken _, hin.step hs⟩

lemma Keeps.mapM {f : α → Run β} {as : List α}
    (hf : ∀ a ∈ as, ∀ w₁, S.Inv w₁ → Step none w w₁ →
      S.Keeps none (fun _ _ => True) (f a) w₁) (hi : S.Inv w) :
    S.Keeps none (fun bs _ => bs.length = as.length) (as.mapM f) w := by
  induction as generalizing w with
  | nil => exact keeps_pure hi rfl
  | cons a as ih =>
    rw [List.forall_mem_cons] at hf
    rw [List.mapM_cons]
    refine (hf.1 w hi (.refl _ w)).bind fun b w₁ hi₁ hs _ => ?_
    refine (ih (fun a' ha' w₂ hi₂ hs₂ => hf.2 a' ha' w₂ hi₂ (hs.trans hs₂)) hi₁).bind
      fun bs w₂ hi₂ _ hlength => ?_
    exact keeps_pure hi₂ (by simp [hlength])

/-! ### Events -/

lemma keeps_note (hi : S.Inv w) (he : S.Agrees w.log e) :
    S.Keeps none (fun _ _ => True) (note e) w := by
  have hstep : Step none w (w.after e w.store) := ⟨.refl none w.store, hi.suffix_after⟩
  unfold Keeps Ends
  rw [outcome_note]
  exact ⟨hi.step (hi.toFaithful.after he) hstep (by simp), hstep, trivial⟩

/-- A step is recorded with what it yields. -/
lemma Keeps.recording {event : α → Event} (h : S.Keeps none (fun _ _ => True) x w)
    (he : ∀ a j, S.Agrees j (event a)) :
    S.Keeps none (fun _ _ => True) (recording event x) w := by
  unfold Execution.recording
  refine h.bind fun a w₁ hi _ _ => ?_
  refine (keeps_note hi (he a w₁.log)).bind fun _ w₂ hi₂ _ _ => ?_
  exact keeps_pure hi₂ trivial

/-- Whether a name that is not resolved is made a fault does not matter. -/
lemma Keeps.resolving (h : S.Keeps own post x w) : S.Keeps own post (resolving site x) w := by
  unfold Keeps Ends at h ⊢
  rw [outcome_resolving]
  rcases hx : outcome x w with ⟨halt | a, w₁⟩ <;> rw [hx] at h <;> exact h

lemma keeps_consult {find : Store → Except NameError α} (hi : S.Inv w) :
    S.Keeps own (fun a w₁ => find w.store = .ok a ∧ w₁ = w) (consult find) w := by
  unfold Keeps Ends
  rw [outcome_consult]
  cases hf : find w.store with
  | ok a => exact ⟨hi, .refl own w, rfl, rfl⟩
  | error e => exact hi.toFaithful

lemma keeps_lookup {find : Store → Except NameError α} (hi : S.Inv w) :
    S.Keeps own (fun a w₁ => find w.store = .ok a ∧ w₁ = w) (lookup site find) w :=
  (keeps_consult hi).resolving

/-! ### Variables and scopes -/

/-- A new scope leads where the scope around it does. -/
lemma Ready.enter (hr : S.Ready around scope w) (hi : S.Inv w)
    (hw : w₁.store = (w.store.enter (some scope)).2) (hlog : w.log <:+ w₁.log) :
    S.Inside around (w.store.enter (some scope)).1 w₁ := by
  have hglobals : S.globals.frame < w.store.frames.size :=
    hi.fields.size _ (List.mem_cons_self ..)
  refine ⟨?_, hglobals, ?_⟩
  · cases around with
    | foreign =>
      intro hmem
      rcases List.mem_cons.1 hmem with heq | hmem
      · exact Nat.ne_of_lt hglobals heq
      · exact hr hmem
    | within place bs =>
      refine ⟨hr.1, ?_⟩
      rw [hw]
      exact (hr.2.enter (some scope)).mono fun _ _ hc => Occurs.mono hc hlog
  · rw [hw, Store.size_enter]
    exact Nat.lt_succ_self _

/-- What is done in a new scope adds nothing to the frames that were there before. -/
lemma keeps_enter {f : Scope → Run α} (hi : S.Inv w) (hr : S.Ready around scope w)
    (hf : ∀ scope₁ w₁, S.Inv w₁ → S.Inside around scope₁ w₁ →
      S.Keeps (some scope₁.frame) (fun _ _ => True) (f scope₁) w₁) :
    S.Keeps none (fun _ _ => True) (enter scope >>= f) w := by
  have hstep : Step none w (w.after (.entered (w.store.enter (some scope)).1)
      (w.store.enter (some scope)).2) := ⟨Store.grows_enter (some scope), hi.suffix_after⟩
  have hi₁ := hi.step (hi.toFaithful.after (e := .entered _) trivial) hstep (by simp)
  refine ends_bind ?_
  unfold Ends
  rw [outcome_enter]
  refine Ends.imp (hf _ _ hi₁ (hr.enter hi rfl hstep.log)) ?_ fun _ _ h => h
  rintro a w₂ ⟨hi₂, hstep₂, _⟩
  exact ⟨hi₂, ⟨.of_enter (some scope) hstep₂.store, hstep.log.trans hstep₂.log⟩, trivial⟩

/-- A variable is made unless its scope has one of the same name. -/
lemma ends_addVariable {done : Unit → World → Prop} {origin : Origin} {v : Variable}
    (hf : S.Faithful w)
    (hdone : (w.store.frame scope.frame).getVariable? v.name = none →
      done () (w.after (.created origin ⟨scope.frame, v.name⟩) (w.store.addVariable scope v))) :
    Ends done (fun _ w₁ => S.Faithful w₁) (addVariable site origin scope v) w := by
  cases hnew : (w.store.frame scope.frame).getVariable? v.name with
  | some v' =>
    unfold Ends addVariable
    rw [outcome_resolving, outcome_newVariable, Store.variableConflict?, hnew]
    exact hf
  | none =>
    unfold Ends
    rw [outcome_addVariable hnew]
    exact hdone hnew

/-- A variable is made in a scope for an origin, which binds its name from then on. -/
lemma keeps_addVariable {origin : Origin} {v : Variable} (hi : S.Inv w)
    (hin : S.Inside around scope w) :
    S.Keeps (some scope.frame) (fun _ w₁ => S.Inside (around.bind v.name origin) scope w₁)
      (addVariable site origin scope v) w := by
  refine ends_addVariable hi.toFaithful fun hnew => ?_
  have hstep : Step (some scope.frame) w (w.after (.created origin ⟨scope.frame, v.name⟩)
      (w.store.addVariable scope v)) := ⟨Store.grows_addVariable hin.size, hi.suffix_after⟩
  refine ⟨hi.step (hi.toFaithful.after trivial) hstep hin.not_globals, hstep, ?_, hin.above, ?_⟩
  · have hr := hin.ready
    cases around with
    | foreign => exact hr
    | within place bs => exact ⟨hr.1, finds_create hr.2 hi.kept hnew⟩
  · exact Nat.lt_of_lt_of_le hin.size hstep.store.size

/-- An object is put into a variable that was found. -/
lemma keeps_store {access : Node} {ref : VariableRef} {v : Variable} {o : Object} (hi : S.Inv w)
    (hv : w.store.getVariable? ref = some v)
    (he : S.Agrees w.log (.assigned scope access ref)) :
    S.Keeps none (fun _ _ => True) (store site scope access ref v o) w := by
  unfold Execution.store
  split
  · exact keeps_fail hi
  · have hstep : Step none w (w.after (.assigned scope access ref) (w.store.setVariable ref o)) :=
      ⟨Store.grows_setVariable hv, hi.suffix_after⟩
    unfold Keeps Ends
    rw [outcome_modifyStore]
    exact ⟨hi.step (hi.toFaithful.after he) hstep (by simp), hstep, trivial⟩

/-! ### Natives -/

/-- A step that only prints. -/
lemma keeps_of_printed {printed : String}
    (h : (outcome x w).2 = { w with output := w.output ++ printed }) (hi : S.Inv w) :
    S.Keeps none (fun _ _ => True) x w := by
  have hstep : Step none w { w with output := w.output ++ printed } :=
    ⟨.refl none w.store, List.suffix_rfl⟩
  have hi₁ : S.Inv { w with output := w.output ++ printed } :=
    hi.step ⟨hi.kept, hi.moments⟩ hstep (by simp)
  unfold Keeps Ends
  rcases hout : outcome x w with ⟨halt | a, w₁⟩ <;> rw [hout] at h <;> obtain rfl := h
  · exact hi₁.toFaithful
  · exact ⟨hi₁, hstep, trivial⟩

lemma keeps_callNative (hN : N.OnlyPrint) {native : Native} {objects : List Object}
    (hi : S.Inv w) : S.Keeps none (fun _ _ => True) (callNative N native objects depth) w := by
  obtain ⟨printed, h⟩ := hN.exists_printed native objects depth w
  exact keeps_of_printed h hi

/-! ### Expressions -/

/-- Rules that are nested to the depth agree with the decorations. -/
structure KeepsAt (S : Stage) (N : Natives) (fuel depth : Nat) : Prop where
  evaluate : ∀ {around : Surroundings} {scope : Scope} {n : Node} {w : World},
    S.Resolves n around → S.Inv w → S.Ready around scope w →
    S.Keeps none (fun _ _ => True) (Execution.evaluate N fuel scope n depth) w
  invoke : ∀ {g : Function} {objects : List Object} {w : World}, S.Callable g → S.Inv w →
    S.Keeps none (fun _ _ => True) (Execution.invoke N fuel g objects depth) w
  execute : ∀ {around : Surroundings} {scope : Scope} {n : Node} {w : World},
    S.Resolves n around → S.Inv w → S.Inside around scope w →
    S.Keeps (some scope.frame) (fun _ w₁ => S.Inside (around.after n) scope w₁)
      (Execution.execute N fuel scope n depth) w

lemma condition_keeps (ih : ∀ d < depth, S.KeepsAt N fuel d) (hn : S.Resolves n around)
    (hi : S.Inv w) (hr : S.Ready around scope w) :
    S.Keeps none (fun _ _ => True) (condition N fuel scope n depth) w := by
  cases depth with
  | zero =>
    rw [condition]
    exact keeps_tooDeep hi
  | succ depth =>
    rw [condition]
    refine ((ih depth (Nat.lt_succ_self _)).evaluate hn hi hr).bind fun o w₁ hi₁ _ _ => ?_
    split
    · exact keeps_pure hi₁ trivial
    · exact keeps_fail hi₁

lemma operateAt_keeps {operator : String} {a b : Object} (hi : S.Inv w) :
    S.Keeps none (fun _ _ => True) (operateAt site operator a b) w := by
  unfold operateAt
  split
  · split
    · exact keeps_pure hi trivial
    · exact keeps_throw hi
  · exact keeps_fail hi
  · exact keeps_throw hi

lemma operation_keeps (ih : ∀ d < depth, S.KeepsAt N fuel d) {operator : String} {left right : Node}
    (hl : S.Resolves left around) (hr : S.Resolves right around) (hi : S.Inv w)
    (hs : S.Ready around scope w) :
    S.Keeps none (fun _ _ => True) (operation N fuel scope mark operator left right depth) w := by
  cases depth with
  | zero =>
    rw [operation]
    exact keeps_tooDeep hi
  | succ depth =>
    have ih' : ∀ d < depth, S.KeepsAt N fuel d := fun d hd => ih d (Nat.lt_succ_of_lt hd)
    rw [operation]
    -- The right operand of a logical operator is reached only if the left one does not decide.
    by_cases hand : operator = "&&"
    · rw [if_pos hand]
      refine (condition_keeps ih' hl hi hs).bind fun c w₁ hi₁ hstep _ => ?_
      cases c with
      | false => exact keeps_pure hi₁ trivial
      | true =>
        refine (condition_keeps ih' hr hi₁ (hs.step hstep)).bind fun _ w₂ hi₂ _ _ => ?_
        exact keeps_pure hi₂ trivial
    by_cases hor : operator = "||"
    · rw [if_neg hand, if_pos hor]
      refine (condition_keeps ih' hl hi hs).bind fun c w₁ hi₁ hstep _ => ?_
      cases c with
      | true => exact keeps_pure hi₁ trivial
      | false =>
        refine (condition_keeps ih' hr hi₁ (hs.step hstep)).bind fun _ w₂ hi₂ _ _ => ?_
        exact keeps_pure hi₂ trivial
    · have hsafe := ih depth (Nat.lt_succ_self _)
      rw [if_neg hand, if_neg hor]
      refine (hsafe.evaluate hl hi hs).bind fun a w₁ hi₁ hstep _ => ?_
      refine (hsafe.evaluate hr hi₁ (hs.step hstep)).bind fun b w₂ hi₂ _ _ => ?_
      exact operateAt_keeps hi₂

lemma mem_of_resolves_all {A : Accepted} {ns : List Node} (h : Accepted.Resolves.all A ns around) :
    ∀ n ∈ ns, A.Resolves n around := by
  induction ns with
  | nil => simp
  | cons n ns ih => exact List.forall_mem_cons.2 ⟨h.1, ih h.2⟩

lemma arguments_keeps (ih : ∀ d < depth, S.KeepsAt N fuel d) {ns : List Node}
    (hns : Accepted.Resolves.all S.toAccepted ns around) (hi : S.Inv w)
    (hr : S.Ready around scope w) :
    S.Keeps none (fun objects _ => objects.length = ns.length)
      (arguments N fuel scope ns depth) w := by
  cases depth with
  | zero =>
    rw [arguments]
    exact keeps_tooDeep hi
  | succ depth =>
    rw [arguments]
    refine Keeps.mapM (fun n hn w₁ hi₁ hs => ?_) hi
    exact (ih depth (Nat.lt_succ_self _)).evaluate (mem_of_resolves_all hns n hn) hi₁ (hr.step hs)

/-- What is found among functions may be invoked. -/
lemma Inv.callable_of_lookup {fref : FunctionRef} {g : Function} {arity : Nat} (hi : S.Inv w)
    (h : w.store.lookupFunction scope name arity = .ok (fref, g)) : S.Callable g :=
  hi.callable fref.frame g (List.mem_of_find?_eq_some
    (Store.getFunction?_of_findFunction? (Store.findFunction?_of_lookup h)).1)

lemma Inv.callable_of_lookupMethod {members : Option Scope} {fref : FunctionRef} {g : Function}
    {arity : Nat} (hi : S.Inv w) (h : w.store.lookupMethod members name arity = .ok (fref, g)) :
    S.Callable g := by
  cases members with
  | none => cases h
  | some scope => exact hi.callable_of_lookup h

lemma call_keeps (ih : ∀ d < depth, S.KeepsAt N fuel d) (hc : S.Complete) {receiver : Node}
    {ns : List Node} (hn : S.Resolves (.call mark receiver name ns) around) (hi : S.Inv w)
    (hr : S.Ready around scope w) :
    S.Keeps none (fun _ _ => True) (call N fuel scope mark receiver name ns depth) w := by
  obtain ⟨hleads, hreceiver, hns⟩ := hn
  cases depth with
  | zero =>
    rw [call]
    exact keeps_tooDeep hi
  | succ depth =>
    have hsafe := ih depth (Nat.lt_succ_self _)
    rw [call.eq_def]
    refine (arguments_keeps (fun d hd => ih d (Nat.lt_succ_of_lt hd)) hns hi hr).bind
      fun objects w₁ hi₁ hstep hlength => ?_
    have hr₁ := hr.step hstep
    split
    · refine (keeps_lookup hi₁).bind ?_
      rintro ⟨fref, g⟩ w₂ hi₂ _ ⟨hlookup, rfl⟩
      rw [hlength] at hlookup
      have he : S.Agrees w₂.log (.called scope (.call mark .absent name ns) g) := by
        intro hin mark' name' ns' heq
        cases heq
        exact hi₂.call_agrees hc hr₁ (hleads rfl) hlookup hin
      refine (keeps_note hi₂ he).bind fun _ w₃ hi₃ _ _ => ?_
      exact hsafe.invoke (hi₂.callable_of_lookup hlookup) hi₃
    · refine (hsafe.evaluate hreceiver hi₁ hr₁).bind fun o w₂ hi₂ _ _ => Keeps.resolving ?_
      refine (keeps_consult hi₂).bind ?_
      rintro ⟨fref, g⟩ w₃ hi₃ _ ⟨hlookup, rfl⟩
      exact hsafe.invoke (hi₃.callable_of_lookupMethod hlookup) hi₃

/-- A name is looked up, and so is a field of a receiver. Either way the variable is found. -/
lemma evaluate_keeps (ih : ∀ d < depth, S.KeepsAt N fuel d) (hc : S.Complete)
    (hn : S.Resolves n around) (hi : S.Inv w) (hr : S.Ready around scope w) :
    S.Keeps none (fun _ _ => True) (Execution.evaluate N fuel scope n depth) w := by
  cases depth with
  | zero =>
    rw [Execution.evaluate]
    exact keeps_tooDeep hi
  | succ depth =>
    have ih' : ∀ d < depth, S.KeepsAt N fuel d := fun d hd => ih d (Nat.lt_succ_of_lt hd)
    have hsafe := ih depth (Nat.lt_succ_self _)
    rw [Execution.evaluate.eq_def]
    refine Keeps.recording ?_ fun _ _ => trivial
    cases n with
    | literal _ value _ =>
      dsimp only
      split
      · exact keeps_pure hi trivial
      · exact keeps_throw hi
    | group _ body => exact hsafe.evaluate hn hi hr
    | binary mark operator left right => exact operation_keeps ih' hn.1 hn.2 hi hr
    | access mark receiver name =>
      obtain ⟨hleads, hreceiver⟩ := hn
      dsimp only
      split
      · -- A name of its own is found where analysis found it, so the read agrees with the
        -- decoration.
        refine (keeps_lookup hi).bind ?_
        rintro ⟨ref, v⟩ w₁ hi₁ _ ⟨hlookup, rfl⟩
        have he : S.Agrees w₁.log (.read scope (.access mark .absent name) ref) := by
          intro hin mark' name' heq
          cases heq
          exact hr.variable_agrees (hleads rfl) hlookup hin
        refine (keeps_note hi₁ he).bind fun _ w₂ hi₂ _ _ => ?_
        exact keeps_pure hi₂ trivial
      · -- A field of a receiver is no name of the program, so nothing has to agree.
        rename_i hpresent
        refine (hsafe.evaluate hreceiver hi hr).bind fun o w₁ hi₁ _ _ => ?_
        refine (keeps_lookup hi₁).bind ?_
        rintro ⟨ref, v⟩ w₂ hi₂ _ ⟨_, rfl⟩
        have he : S.Agrees w₂.log (.read scope (.access mark receiver name) ref) := by
          intro hin mark' name' heq
          cases heq
          exact absurd rfl hpresent
        refine (keeps_note hi₂ he).bind fun _ w₃ hi₃ _ _ => ?_
        exact keeps_pure hi₃ trivial
    | call => exact call_keeps ih' hc hn hi hr
    | _ => exact keeps_fail hi

/-! ### Blocks -/

/-- A statement that binds nothing leaves its scope as it is. -/
lemma Keeps.same (h : S.Keeps none (fun _ _ => True) x w) (hin : S.Inside around scope w)
    (hn : ∀ bs, n.binds bs = bs) :
    S.Keeps (some scope.frame) (fun _ w₁ => S.Inside (around.after n) scope w₁) x w := by
  have hafter : around.after n = around := by
    cases around with
    | foreign => rfl
    | within place bs => exact congrArg _ (hn bs)
  rw [hafter]
  exact h.inside hin

lemma executeAll_keeps (ih : S.KeepsAt N fuel depth) {ns : List Node}
    (hns : Accepted.Resolves.block S.toAccepted ns around) (hi : S.Inv w)
    (hin : S.Inside around scope w) :
    S.Keeps (some scope.frame) (fun _ _ => True)
      (executeAll (fun n => Execution.execute N fuel scope n depth) ns) w := by
  induction ns generalizing around w with
  | nil => exact keeps_pure hi trivial
  | cons n ns ihns =>
    rw [executeAll]
    refine (ih.execute hns.1 hi hin).bind fun r w₁ hi₁ _ hin₁ => ?_
    cases r with
    | some o => exact keeps_pure hi₁ trivial
    | none => exact ihns hns.2 hi₁ hin₁

lemma block_keeps (ih : ∀ d < depth, S.KeepsAt N fuel d) {body : List Node}
    (hbody : Accepted.Resolves.block S.toAccepted body around) (hi : S.Inv w)
    (hin : S.Inside around scope w) :
    S.Keeps (some scope.frame) (fun _ _ => True) (block N fuel scope body depth) w := by
  cases depth with
  | zero =>
    rw [block]
    exact keeps_tooDeep hi
  | succ depth =>
    rw [block]
    exact executeAll_keeps (ih depth (Nat.lt_succ_self _)) hbody hi hin

/-- A block in a scope of its own. -/
lemma inner_keeps (ih : ∀ d < depth, S.KeepsAt N fuel d) {body : List Node}
    (hbody : Accepted.Resolves.block S.toAccepted body around) (hi : S.Inv w)
    (hr : S.Ready around scope w) :
    S.Keeps none (fun _ _ => True) (do block N fuel (← enter scope) body depth) w :=
  keeps_enter hi hr fun _ _ hi₁ hin => block_keeps ih hbody hi₁ hin

/-! ### Invocations -/

/-- Parameters bind their names from the scope of a call on. -/
lemma bindParameters_keeps {m : Method} {k : Nat} {place : Place} {bs : List Binding}
    {names : List String} {objects : List Object} (hlength : objects.length = names.length)
    (hi : S.Inv w) (hin : S.Inside (.within place bs) scope w) :
    S.Keeps (some scope.frame)
      (fun _ w₁ => S.Inside (.within place (m.parameterBindings k names bs)) scope w₁)
      (bindParameters m scope k (names.zip objects)) w := by
  induction names generalizing objects k bs w with
  | nil => exact keeps_pure hi hin
  | cons name names ih =>
    obtain ⟨o, objects, rfl⟩ := List.exists_cons_of_length_eq_add_one hlength
    rw [List.length_cons, List.length_cons, Nat.add_right_cancel_iff] at hlength
    rw [List.zip_cons_cons, bindParameters]
    refine (keeps_addVariable hi hin).bind fun _ w₁ hi₁ _ hin₁ => ?_
    exact ih hlength hi₁ hin₁

lemma bindParameters_keeps_foreign {m : Method} {k : Nat} {named : List (String × Object)}
    (hi : S.Inv w) (hin : S.Inside .foreign scope w) :
    S.Keeps (some scope.frame) (fun _ w₁ => S.Inside .foreign scope w₁)
      (bindParameters m scope k named) w := by
  induction named generalizing k w with
  | nil => exact keeps_pure hi hin
  | cons p named ih =>
    rw [bindParameters]
    refine (keeps_addVariable hi hin).bind fun _ w₁ hi₁ _ hin₁ => ?_
    exact ih hi₁ hin₁

/-- A method of the program is invoked in the global scope, with its parameters bound. -/
lemma method_keeps (ih : ∀ d < depth, S.KeepsAt N fuel d) (hc : S.Complete) {m : Method}
    {objects : List Object} (hm : m ∈ S.table) (hlength : objects.length = m.parameters.length)
    (hi : S.Inv w) :
    S.Keeps none (fun _ _ => True)
      (do
        let scope ← enter S.globals
        bindParameters m scope 0 (m.parameters.zip objects)
        return (← block N fuel scope m.body depth).getD .unset) w := by
  rcases hc with hnil | ⟨hall, hbs⟩
  · rw [hnil] at hm
    cases hm
  obtain ⟨before, after, hsplit⟩ := List.append_of_mem hm
  have hbody := S.program_passed.resolved.methods before m after (hall ▸ hsplit)
  have hready : S.Ready (.within (.method before m after) S.bs) S.globals w :=
    ⟨hsplit.symm, hi.fields⟩
  refine keeps_enter hi hready fun scope w₁ hi₁ hin => ?_
  refine (bindParameters_keeps hlength hi₁ hin).bind fun _ w₂ hi₂ _ hin₂ => ?_
  rw [hbs] at hin₂
  refine (block_keeps ih hbody hi₂ hin₂).bind fun r w₃ hi₃ _ _ => ?_
  exact keeps_pure hi₃ trivial

/-- A method of the host runs in scopes in which the global frame is not found. -/
lemma foreign_keeps (ih : ∀ d < depth, S.KeepsAt N fuel d) {m : Method} {home : Scope}
    {objects : List Object} (hout : S.globals.frame ∉ home.chain) (hi : S.Inv w) :
    S.Keeps none (fun _ _ => True)
      (do
        let scope ← enter home
        bindParameters m scope 0 (m.parameters.zip objects)
        return (← block N fuel scope m.body depth).getD .unset) w := by
  have hready : S.Ready .foreign home w := hout
  refine keeps_enter hi hready fun scope w₁ hi₁ hin => ?_
  refine (bindParameters_keeps_foreign hi₁ hin).bind fun _ w₂ hi₂ _ hin₂ => ?_
  have hbody : Accepted.Resolves.block S.toAccepted m.body .foreign :=
    Accepted.resolves_block_foreign fun n _ => Accepted.resolves_foreign n
  refine (block_keeps ih hbody hi₂ hin₂).bind fun r w₃ hi₃ _ _ => ?_
  exact keeps_pure hi₃ trivial

lemma invoke_keeps (hN : N.OnlyPrint) (ih : ∀ d < depth, S.KeepsAt N fuel d) (hc : S.Complete)
    {g : Function}
    {objects : List Object} (hg : S.Callable g) (hi : S.Inv w) :
    S.Keeps none (fun _ _ => True) (Execution.invoke N fuel g objects depth) w := by
  cases depth with
  | zero => exact keeps_tooDeep hi
  | succ depth =>
    cases depth with
    | zero => exact keeps_tooDeep hi
    | succ depth =>
      have ih' : ∀ d < depth, S.KeepsAt N fuel d :=
        fun d hd => ih d (Nat.lt_succ_of_lt (Nat.lt_succ_of_lt hd))
      rw [Execution.invoke]
      cases hg with
      | native h =>
        rw [h]
        exact keeps_callNative hN hi
      | @foreign m home h hout =>
        rw [h]
        refine Keeps.recording ?_ fun _ _ => trivial
        exact keeps_unless hi (foreign_keeps ih' hout hi)
      | @method m hm h =>
        rw [h]
        refine Keeps.recording ?_ fun _ _ => trivial
        by_cases hlength : objects.length = m.parameters.length
        · rw [if_neg (fun hne => hne hlength)]
          exact method_keeps ih' hc hm hlength hi
        · rw [if_pos hlength]
          exact ends_bind (ends_throw hi.toFaithful)

/-! ### Assignments and loops -/

lemma assign_keeps (ih : ∀ d < depth, S.KeepsAt N fuel d) {receiver value : Node}
    (hreceiver : S.Resolves receiver around) (hvalue : S.Resolves value around) (hi : S.Inv w)
    (hr : S.Ready around scope w) :
    S.Keeps none (fun _ _ => True) (assign N fuel scope mark receiver value depth) w := by
  cases depth with
  | zero =>
    rw [assign]
    exact keeps_tooDeep hi
  | succ depth =>
    have hsafe := ih depth (Nat.lt_succ_self _)
    rw [assign.eq_def]
    cases receiver with
    | access a owner name =>
      obtain ⟨hleads, howner⟩ := hreceiver
      refine (hsafe.evaluate hvalue hi hr).bind fun o w₁ hi₁ hstep _ => ?_
      have hr₁ := hr.step hstep
      split
      · refine (keeps_lookup hi₁).bind ?_
        rintro ⟨ref, v⟩ w₂ hi₂ _ ⟨hlookup, rfl⟩
        have hfind := Store.findVariable?_of_lookup hlookup
        refine keeps_store hi₂ (Store.getVariable?_of_findVariable? hfind).1 ?_
        intro hin mark' name' heq
        cases heq
        exact hr₁.variable_agrees (hleads rfl) hlookup hin
      · rename_i hpresent
        rw [resolving_bind, bind_assoc]
        refine (hsafe.evaluate howner hi₁ hr₁).resolving.bind fun object w₂ hi₂ _ _ => ?_
        refine (keeps_lookup hi₂).bind ?_
        rintro ⟨ref, v⟩ w₃ hi₃ _ ⟨hlookup, rfl⟩
        refine keeps_store hi₃ (Store.getVariable?_of_lookupField hlookup) ?_
        intro hin mark' name' heq
        cases heq
        exact absurd rfl hpresent
    | _ => exact keeps_fail hi

/-- A loop keeps what its condition and its body keep. -/
lemma repeatWhile_keeps {condition : Run Bool} {body : Run (Option Object)} (keeps : World → Prop)
    (hc : ∀ w, S.Inv w → keeps w → S.Keeps own (fun _ w₁ => keeps w₁) condition w)
    (hb : ∀ w, S.Inv w → keeps w → S.Keeps own (fun _ w₁ => keeps w₁) body w)
    (hi : S.Inv w) (hk : keeps w) :
    S.Keeps own (fun _ _ => True) (repeatWhile condition body fuel) w := by
  induction fuel generalizing w with
  | zero => exact keeps_throw hi
  | succ fuel ih =>
    rw [repeatWhile]
    refine (hc w hi hk).bind fun holds w₁ hi₁ _ hk₁ => ?_
    cases holds with
    | false => exact keeps_pure hi₁ trivial
    | true =>
      refine (hb w₁ hi₁ hk₁).bind fun r w₂ hi₂ _ hk₂ => ?_
      cases r with
      | some o => exact keeps_pure hi₂ trivial
      | none => exact ih hi₂ hk₂

lemma whileLoop_keeps (ih : ∀ d < depth, S.KeepsAt N fuel d) {c : Node} {body : List Node}
    (hc : S.Resolves c around) (hbody : Accepted.Resolves.block S.toAccepted body around)
    (hi : S.Inv w) (hr : S.Ready around scope w) :
    S.Keeps none (fun _ _ => True)
      (do
        let loop ← enter scope
        repeatWhile (condition N fuel loop c depth)
          (do block N fuel (← enter loop) body depth) fuel)
      w := by
  refine keeps_enter hi hr fun loop w₁ hi₁ hin => ?_
  refine repeatWhile_keeps (S.Inside around loop) ?_ ?_ hi₁ hin
  · intro w₂ hi₂ hin₂
    exact (condition_keeps ih hc hi₂ hin₂.ready).inside hin₂
  · intro w₂ hi₂ hin₂
    exact (inner_keeps ih hbody hi₂ hin₂.ready).inside hin₂

/-- A clause of a FOR loop is executed if there is one, and then the rest. -/
lemma clause_keeps {k : Run α} (ih : S.KeepsAt N fuel depth) (hn : S.Resolves n around)
    (hi : S.Inv w) (hin : S.Inside around scope w)
    (hk : ∀ w₁, S.Inv w₁ → S.Inside (around.after n) scope w₁ →
      S.Keeps (some scope.frame) post k w₁) :
    S.Keeps (some scope.frame) post
      (if n.isPresent = true then (do
        let _ ← Execution.execute N fuel scope n depth
        k) else k) w := by
  by_cases hpresent : n.isPresent = true
  · rw [if_pos hpresent]
    exact (ih.execute hn hi hin).bind fun _ w₁ hi₁ _ hin₁ => hk w₁ hi₁ hin₁
  · rw [if_neg hpresent]
    cases n with
    | absent => exact hk w hi (by cases around <;> exact hin)
    | _ => exact absurd rfl hpresent

lemma forLoop_keeps (ih : ∀ d < depth, S.KeepsAt N fuel d) {first c last : Node} {body : List Node}
    (hn : S.Resolves (.forLoop mark first c last body) around) (hi : S.Inv w)
    (hr : S.Ready around scope w) :
    S.Keeps none (fun _ _ => True) (forLoop N fuel scope mark first c last body depth) w := by
  obtain ⟨hfirst, hcond, hlast, hsame, hbody⟩ := hn
  cases depth with
  | zero =>
    rw [forLoop]
    exact keeps_tooDeep hi
  | succ depth =>
    have ih' : ∀ d < depth, S.KeepsAt N fuel d := fun d hd => ih d (Nat.lt_succ_of_lt hd)
    have hsafe := ih depth (Nat.lt_succ_self _)
    rw [forLoop]
    refine keeps_enter hi hr fun loop w₁ hi₁ hin => ?_
    refine clause_keeps hsafe hfirst hi₁ hin fun w₂ hi₂ hin₂ => ?_
    refine keeps_unless hi₂ (repeatWhile_keeps (S.Inside (around.after first) loop) ?_ ?_ hi₂ hin₂)
    · intro w₃ hi₃ hin₃
      exact (condition_keeps ih' hcond hi₃ hin₃.ready).inside hin₃
    · intro w₃ hi₃ hin₃
      rw [← bind_assoc]
      refine ((inner_keeps ih' hbody hi₃ hin₃.ready).inside hin₃).bind
        fun r w₄ hi₄ _ hin₄ => ?_
      cases r with
      | some o => exact keeps_pure hi₄ hin₄
      | none =>
        refine clause_keeps hsafe hlast hi₄ hin₄ fun w₅ hi₅ hin₅ => ?_
        rw [hsame] at hin₅
        exact keeps_pure hi₅ hin₅

/-! ### Statements -/

lemma after_declare {typeName : Option String} {value : Node} :
    around.after (.declare mark name typeName value) = around.bind name (.declaration mark) := by
  cases around <;> rfl

lemma optional_keeps (ih : S.KeepsAt N fuel depth) {value : Node} (hv : S.Resolves value around)
    (hi : S.Inv w) (hr : S.Ready around scope w) :
    S.Keeps none (fun _ _ => True)
      (if value.isPresent = true then Execution.evaluate N fuel scope value depth else pure .unset)
      w := by
  split
  · exact ih.evaluate hv hi hr
  · exact keeps_pure hi trivial

lemma execute_keeps (ih : ∀ d < depth, S.KeepsAt N fuel d) (hn : S.Resolves n around) (hi : S.Inv w)
    (hin : S.Inside around scope w) :
    S.Keeps (some scope.frame) (fun _ w₁ => S.Inside (around.after n) scope w₁)
      (Execution.execute N fuel scope n depth) w := by
  cases depth with
  | zero =>
    rw [Execution.execute]
    exact keeps_tooDeep hi
  | succ depth =>
    have ih' : ∀ d < depth, S.KeepsAt N fuel d := fun d hd => ih d (Nat.lt_succ_of_lt hd)
    have hsafe := ih depth (Nat.lt_succ_self _)
    have hr := hin.ready
    rw [Execution.execute.eq_def]
    cases n with
    | perform _ e =>
      have he : S.Resolves e around := hn
      refine Keeps.same ?_ hin fun _ => rfl
      refine (hsafe.evaluate he hi hr).bind fun _ w₁ hi₁ _ _ => ?_
      exact keeps_pure hi₁ trivial
    | declare mark name typeName value =>
      have hvalue : S.Resolves value around := hn
      rw [after_declare]
      refine ends_ite_bind (((optional_keeps hsafe hvalue hi hr).inside hin).bind ?_)
      intro o w₁ hi₁ _ hin₁
      refine (keeps_addVariable hi₁ hin₁).bind fun _ w₂ hi₂ _ hin₂ => ?_
      exact keeps_pure hi₂ hin₂
    | assign mark receiver value =>
      refine Keeps.same ?_ hin fun _ => rfl
      refine (assign_keeps ih' hn.1 hn.2 hi hr).bind fun _ w₁ hi₁ _ _ => ?_
      exact keeps_pure hi₁ trivial
    | branch _ c thenBody elseBody =>
      refine Keeps.same ?_ hin fun _ => rfl
      refine (condition_keeps ih' hn.1 hi hr).bind fun holds w₁ hi₁ hstep _ => ?_
      cases holds with
      | true => exact inner_keeps ih' hn.2.1 hi₁ (hr.step hstep)
      | false => exact inner_keeps ih' hn.2.2 hi₁ (hr.step hstep)
    | forLoop mark first c last body =>
      exact (forLoop_keeps ih' hn hi hr).same hin fun _ => rfl
    | whileLoop _ c body => exact (whileLoop_keeps ih' hn.1 hn.2 hi hr).same hin fun _ => rfl
    | giveBack _ value =>
      have hvalue : S.Resolves value around := hn
      refine Keeps.same ?_ hin fun _ => rfl
      refine (hsafe.evaluate hvalue hi hr).bind fun _ w₁ hi₁ _ _ => ?_
      exact keeps_pure hi₁ trivial
    | _ => exact keeps_fail hi

/-- Evaluation agrees with the decorations at every depth. -/
theorem keepsAt (hN : N.OnlyPrint) (hc : S.Complete) (fuel depth : Nat) :
    S.KeepsAt N fuel depth := by
  induction depth using Nat.strongRecOn with
  | ind depth ih =>
    refine ⟨?_, ?_, ?_⟩
    · intro around scope n w hn hi hr
      exact evaluate_keeps ih hc hn hi hr
    · intro g objects w hg hi
      exact invoke_keeps hN ih hc hg hi
    · intro around scope n w hn hi hin
      exact execute_keeps ih hn hi hin

end LetDef.Stage
