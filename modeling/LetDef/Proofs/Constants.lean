import LetDef.Proofs.Execution.Order

/-!
# Constants are written once

A constant that has been set keeps its value from then on: through every moment of every run and
every call, whether they end well or not. That holds of all stores that are passed through, not only
of those that a run leaves. An assignment to such a constant is refused, and nothing changes that
evaluating its value and its receiver did not change.
-/

namespace LetDef

/-- The constants that are set in the first store are the same in the second. -/
def Store.KeepsConstants (s t : Store) : Prop :=
  ∀ ref v, s.getVariable? ref = some v → v.constant = true → v.value ≠ .unset →
    t.getVariable? ref = some v

namespace Store.KeepsConstants

variable {s t u : Store}

lemma refl (s : Store) : s.KeepsConstants s :=
  fun _ _ h _ _ => h

lemma trans (h : s.KeepsConstants t) (h' : t.KeepsConstants u) : s.KeepsConstants u :=
  fun ref v hv hconstant hset => h' ref v (h ref v hv hconstant hset) hconstant hset

lemma enter (s : Store) (parent : Option Scope) : s.KeepsConstants (s.enter parent).2 := by
  intro ref v hv _ _
  unfold Store.getVariable?
  rw [frame_enter]
  exact hv

lemma addFunction (s : Store) (scope : Scope) (g : Function) :
    s.KeepsConstants (s.addFunction scope g) := by
  intro ref v hv _ _
  unfold Store.getVariable? Frame.getVariable?
  rw [vars_addFunction]
  exact hv

/-- A new variable takes no one's place. -/
lemma addVariable {scope : Scope} {v : Variable} (h : s.variableConflict? scope v.name = none) :
    s.KeepsConstants (s.addVariable scope v) := by
  intro ref v' hv' _ _
  rw [getVariable?_addVariable_of_ref_ne, hv']
  rintro rfl
  unfold variableConflict? at h
  rw [show (s.frame scope.frame).getVariable? v.name = some v' from hv'] at h
  cases h

/-- A variable that may be assigned to is no constant that is set. -/
lemma setVariable {ref : VariableRef} {v : Variable} (o : Object)
    (hv : s.getVariable? ref = some v) (h : (v.constant && v.value != .unset) = false) :
    s.KeepsConstants (s.setVariable ref o) := by
  intro other v' hv' hconstant hset
  rw [getVariable?_setVariable_of_ne hv, hv']
  rintro rfl
  rw [hv] at hv'
  cases hv'
  simp [hconstant, hset] at h

end Store.KeepsConstants

namespace Execution

/-! ### Moments -/

/-- The stores of a world's moments since another world, the latest first, and the store that the
other world began with. -/
def passed (w : World) (moments : Journal) : List Store :=
  moments.map Moment.store ++ [w.store]

/-- The constants of every earlier store are kept in every later one, the latest of which is that of
the second world. -/
def KeepsThrough (w : World) (moments : Journal) (w' : World) : Prop :=
  (passed w moments).head? = some w'.store ∧
    (passed w moments).Pairwise fun later earlier => earlier.KeepsConstants later

/-- Moments lead from the first world to the second, and through all of them constants are kept. -/
def Stays (w w' : World) : Prop :=
  ∃ moments, w'.journal = w.journal.map (moments ++ ·) ∧ KeepsThrough w moments w'

variable {u v w w' : World} {moments : Journal}

/-- What was kept at some time is kept in the latest store. -/
lemma KeepsThrough.latest (h : KeepsThrough w moments w') {s : Store} (hs : s ∈ passed w moments) :
    s.KeepsConstants w'.store := by
  obtain ⟨hhead, hpairs⟩ := h
  cases hpassed : passed w moments with
  | nil =>
    rw [hpassed] at hhead
    cases hhead
  | cons latest earlier =>
    rw [hpassed] at hhead hpairs hs
    cases hhead
    rcases List.mem_cons.1 hs with rfl | hs
    · exact .refl _
    · exact List.rel_of_pairwise_cons hpairs hs

lemma passed_append (u : World) (first second : Journal) :
    passed u (second ++ first) = second.map Moment.store ++ passed u first := by
  unfold passed
  rw [List.map_append, List.append_assoc]

/-- What leads on from where moments have led. -/
lemma KeepsThrough.append {first second : Journal} (h : KeepsThrough u first v)
    (h' : KeepsThrough v second w) : KeepsThrough u (second ++ first) w := by
  obtain ⟨hhead, hpairs⟩ := h'
  have hsecond : (second.map Moment.store).Pairwise fun later earlier =>
      earlier.KeepsConstants later := hpairs.sublist (List.sublist_append_left _ _)
  refine ⟨?_, ?_⟩
  · rw [passed_append u]
    cases second with
    | nil => exact h.1.trans hhead
    | cons m second => exact hhead
  · rw [passed_append u, List.pairwise_append]
    refine ⟨hsecond, h.2, fun later hlater earlier hearlier => ?_⟩
    have hv : v.store.KeepsConstants later :=
      (List.pairwise_append.1 hpairs).2.2 later hlater v.store (List.mem_singleton_self _)
    exact (h.latest hearlier).trans hv

namespace Stays

lemma refl (w : World) : Stays w w := by
  refine ⟨[], ?_, rfl, List.pairwise_singleton _ _⟩
  cases w.journal <;> rfl

lemma trans (h : Stays u v) (h' : Stays v w) : Stays u w := by
  obtain ⟨first, hjournal, hfirst⟩ := h
  obtain ⟨second, hjournal', hsecond⟩ := h'
  refine ⟨second ++ first, ?_, hfirst.append hsecond⟩
  rw [hjournal', hjournal]
  cases u.journal with
  | none => rfl
  | some earlier => simp

/-- A change of the store that keeps constants is a moment of its own. -/
lemma after (w : World) (e : Event) {s : Store} (h : w.store.KeepsConstants s) :
    Stays w (w.after e s) := by
  refine ⟨[⟨e, s⟩], rfl, rfl, ?_⟩
  simpa [passed] using h

end Stays

lemma programOrder_stays : ProgramOrder Stays where
  refl := Stays.refl
  trans := Stays.trans
  note w e := .after w e (.refl _)
  print w _ := Stays.refl w
  enter w e scope := .after w e (.enter _ (some scope))
  addVariable w e _ _ h := .after w e (.addVariable h)
  setVariable w e _ _ o hv h := .after w e (.setVariable o hv h)
  addFunction w e scope g _ := .after w e (.addFunction _ scope g)

/-! ### Uses of an interpreter -/

/-- What can be done with an interpreter from outside. -/
inductive Use where
  | run (fuel depth : Nat) (p : Program)
  | call (fuel depth : Nat) (g : Function) (arguments : List Object)

/-- The world that a use leaves, however it ends. -/
def Use.leave (N : Natives) (globals : Scope) (w : World) : Use → World
  | .run fuel depth p => (outcome (Execution.run N fuel depth globals p) w).2
  | .call fuel depth g arguments => (outcome (invoke N fuel g arguments depth) w).2

/-- The world that uses leave one after the other. -/
def leaveAll (N : Natives) (globals : Scope) (w : World) (uses : List Use) : World :=
  uses.foldl (Use.leave N globals) w

variable {N : Natives}

lemma stays_leave (hN : N.OnlyPrint) (globals : Scope) (w : World) (use : Use) :
    Stays w (use.leave N globals w) := by
  cases use with
  | run fuel depth p => exact programOrder_stays.leads_run hN fuel depth globals p w
  | call fuel depth g arguments =>
    exact programOrder_stays.leads_invoke hN fuel depth g arguments w

lemma stays_leaveAll (hN : N.OnlyPrint) (globals : Scope) (w : World) (uses : List Use) :
    Stays w (leaveAll N globals w uses) := by
  induction uses generalizing w with
  | nil => exact .refl w
  | cons use uses ih => exact (stays_leave hN globals w use).trans (ih _)

/-! ### Refused assignments -/

/-- Storing does nothing before it refuses. -/
lemma store_error {x : Run (VariableRef × Variable)} {site : Site} {scope : Scope} {access : Node}
    {o : Object} {halt : Halt} {w w' : World}
    (h : outcome (x >>= fun found => store site scope access found.1 found.2 o) w
      = (.error halt, w')) : w' = (outcome x w).2 := by
  rw [outcome_bind] at h
  rcases hx : outcome x w with ⟨halt' | found, w₁⟩ <;> rw [hx] at h
  · cases h
    rfl
  · dsimp only at h
    unfold store at h
    split at h
    · cases h
      rfl
    · cases h

/-- Looking a name up leaves what the step before it left. -/
lemma state_bind_consult {α β : Type} {x : Run α} {find : α → Store → Except NameError β} :
    (outcome (x >>= fun a => consult (find a)) w).2 = (outcome x w).2 := by
  rw [outcome_bind]
  rcases outcome x w with ⟨halt | a, w₁⟩
  · rfl
  · exact congrArg Prod.snd outcome_consult

/-- An assignment that stops after its value has been evaluated leaves what evaluating the receiver
leaves. -/
lemma assign_error {fuel depth : Nat} {scope : Scope} {mark m : Mark} {owner value : Node}
    {name : String} {w w₁ w₂ : World} {o : Object} {halt : Halt}
    (hvalue : outcome (evaluate N fuel scope value depth) w = (.ok o, w₁))
    (h : outcome (assign N fuel scope mark (.access m owner name) value (depth + 1)) w
      = (.error halt, w₂)) :
    w₂ = if owner.isPresent then (outcome (evaluate N fuel scope owner depth) w₁).2 else w₁ := by
  rw [assign.eq_def, outcome_bind, hvalue] at h
  rw [store_error h, outcome_resolving]
  cases owner with
  | absent => exact congrArg Prod.snd outcome_consult
  | _ => exact state_bind_consult

/-- Let the functions of the host only print. Whatever an interpreter is then used for, the
constants that are set at some time are the same at all later times: the moments of all uses are in
the journal with the stores that they left, the last of which is the present one. An assignment that
is refused because it is to a constant leaves what evaluating its value and then its receiver
left. -/
theorem constants_written_once (hN : N.OnlyPrint) (globals : Scope) (uses : List Use)
    (w : World) :
    (∃ moments, (leaveAll N globals w uses).journal = w.journal.map (moments ++ ·) ∧
      (passed w moments).head? = some (leaveAll N globals w uses).store ∧
      (passed w moments).Pairwise fun later earlier => ∀ ref v,
        earlier.getVariable? ref = some v → v.constant = true → v.value ≠ .unset →
        later.getVariable? ref = some v) ∧
    ∀ fuel depth scope mark m owner name value o f w₀ w₁ w₂,
      outcome (evaluate N fuel scope value depth) w₀ = (.ok o, w₁) →
      outcome (assign N fuel scope mark (.access m owner name) value (depth + 1)) w₀
        = (.error (.fault f), w₂) → f.cause.code? = some "R030" →
      w₂ = if owner.isPresent then (outcome (evaluate N fuel scope owner depth) w₁).2 else w₁ := by
  refine ⟨stays_leaveAll hN globals w uses, ?_⟩
  intro fuel depth scope mark m owner name value o f w₀ w₁ w₂ hvalue hassign _
  exact assign_error hvalue hassign

/-- A world with a journal whose outermost scope has a constant that is set and a function of the
host. -/
def constantWorld : World where
  store := incStore.addVariable ⟨0, []⟩ ⟨"c", "c", .integer, true, .of (.integer 1)⟩
  journal := some []

/-- The value that is tried instead. -/
def successor : Node :=
  incCall (.access {} .absent "c")

/-- A program that assigns to the constant around it. -/
def overwriting : Program where
  fields := []
  methods :=
    [{ name := "main", parameters := [], parameterTypes := [], returnType := none
       body := [.assign {} (.access {} .absent "c") successor] }]

/-- The program is run over the constant twice, and then one assignment is tried. -/
theorem constants_written_once_overwriting :
    (leaveAll twoFunctions ⟨0, []⟩ constantWorld
      [.run 9 9 overwriting, .run 9 9 overwriting]).store.getVariable? ⟨0, "c"⟩
        = some ⟨"c", "c", .integer, true, .of (.integer 1)⟩ ∧
    ∃ w, outcome (assign twoFunctions 9 ⟨0, []⟩ {} (.access {} .absent "c") successor 9)
          constantWorld
        = (.error (.fault ⟨.constantAssignment "c", ⟨some .assign, none⟩⟩), w) ∧
      w = (outcome (evaluate twoFunctions 9 ⟨0, []⟩ successor 8) constantWorld).2 := by
  obtain ⟨⟨moments, _, hhead, hpairs⟩, hrefused⟩ := constants_written_once
    workOnArguments_twoFunctions.onlyPrint ⟨0, []⟩
    [.run 9 9 overwriting, .run 9 9 overwriting] constantWorld
  have hkept : constantWorld.store.KeepsConstants _ :=
    KeepsThrough.latest ⟨hhead, hpairs⟩ (List.mem_append_right _ (List.mem_singleton_self _))
  have hvalue : (outcome (evaluate twoFunctions 9 ⟨0, []⟩ successor 8) constantWorld).1
      = .ok (.of (.integer 2)) := by decide +kernel
  have hassign : (outcome
      (assign twoFunctions 9 ⟨0, []⟩ {} (.access {} .absent "c") successor 9) constantWorld).1
        = .error (.fault ⟨.constantAssignment "c", ⟨some .assign, none⟩⟩) := by decide +kernel
  refine ⟨hkept _ _ rfl rfl (by decide), _, Prod.ext hassign rfl, ?_⟩
  exact hrefused _ _ _ _ _ .absent _ _ _ _ _ _ _ (Prod.ext hvalue rfl) (Prod.ext hassign rfl) rfl

end Execution

end LetDef
