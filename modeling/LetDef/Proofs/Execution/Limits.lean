import LetDef.Proofs.Execution.Order

/-!
# Raising the limits of a run

A run may be stopped by the limit on depth and by the limit on loops. Where a limit is raised, a run
that it did not stop does the same as before, and one that it did stop goes on from where it was, so
that what it printed stays printed.
-/

namespace LetDef.Execution

/-- What was printed by the first world is what the second begins with. -/
def World.Prints (w w' : World) : Prop :=
  ∃ rest, w'.output = w.output ++ rest

lemma programOrder_prints : ProgramOrder World.Prints where
  refl w := ⟨"", String.append_empty.symm⟩
  trans := by
    rintro u v w ⟨first, hv⟩ ⟨second, hw⟩
    exact ⟨first ++ second, by rw [hw, hv, String.append_assoc]⟩
  note _ _ := ⟨"", String.append_empty.symm⟩
  print _ text := ⟨text, rfl⟩
  enter _ _ _ := ⟨"", String.append_empty.symm⟩
  addVariable _ _ _ _ _ := ⟨"", String.append_empty.symm⟩
  setVariable _ _ _ _ _ _ _ := ⟨"", String.append_empty.symm⟩
  addFunction _ _ _ _ _ := ⟨"", String.append_empty.symm⟩

/-- The second step does what the first does, unless the limit stops the first; then the second goes
on printing. -/
structure Extends (limit : Halt) {α : Type} (x y : Run α) : Prop where
  leads : Leads World.Prints y
  agrees (w : World) : outcome x w = outcome y w ∨
    (outcome x w).1 = .error limit ∧ (outcome x w).2.Prints (outcome y w).2

variable {N : Natives} {limit : Halt} {α β : Type} {x y : Run α} {fuel fuel' depth depth' : Nat}

namespace Extends

lemma self (hx : Leads World.Prints x) : Extends limit x x :=
  ⟨hx, fun _ => .inl rfl⟩

lemma bind {f g : α → Run β} (hx : Extends limit x y) (hf : ∀ a, Extends limit (f a) (g a)) :
    Extends limit (x >>= f) (y >>= g) := by
  have hgo (a) : Leads World.Prints (g a) := (hf a).leads
  have hleads := programOrder_prints.leads_bind hx.leads hgo
  refine ⟨hleads, fun w => ?_⟩
  rcases hx.agrees w with heq | ⟨hstop, hprints⟩
  · rw [outcome_bind, outcome_bind, heq]
    rcases outcome y w with ⟨halt | a, w₁⟩
    · exact .inl rfl
    · exact (hf a).agrees w₁
  · -- The second step may end where the first was stopped, or do what follows.
    refine .inr ?_
    rw [outcome_bind, outcome_bind]
    rcases hxw : outcome x w with ⟨halt | a, w₁⟩ <;> rw [hxw] at hstop hprints
    · refine ⟨congrArg Except.error (Except.error.inj hstop), ?_⟩
      rcases hyw : outcome y w with ⟨halt' | a, w₂⟩ <;> rw [hyw] at hprints
      · exact hprints
      · exact programOrder_prints.trans hprints (hgo a w₂)
    · cases hstop

/-- A change of how steps stop keeps the relation, if the limit is changed likewise. -/
lemma mapError {change : Halt → Halt} {x' y' : Run α} (hx : Extends limit x y)
    (hx' : ∀ w, outcome x' w = ((outcome x w).1.mapError change, (outcome x w).2))
    (hy' : ∀ w, outcome y' w = ((outcome y w).1.mapError change, (outcome y w).2)) :
    Extends (change limit) x' y' := by
  refine ⟨fun w => ?_, fun w => ?_⟩
  · rw [hy']
    exact hx.leads w
  · rw [hx', hy']
    rcases hx.agrees w with heq | ⟨hstop, hprints⟩
    · exact .inl (by rw [heq])
    · exact .inr ⟨by rw [hstop]; rfl, hprints⟩

end Extends

/-- The limit is none on names, which the rules tell apart from the others. -/
lemma indifferent_extends (hlimit : ∀ site, limit.at site = limit) :
    Indifferent fun _ => Extends limit := by
  have hleads := programOrder_prints.indifferent
  exact
    { pure := fun a => .self (hleads.pure a)
      bind := Extends.bind
      throw := fun halt => .self (hleads.throw halt)
      resolving := fun site hx => by
        have h : Extends (limit.at site) (resolving site _) (resolving site _) :=
          hx.mapError (fun _ => outcome_resolving) fun _ => outcome_resolving
        rwa [hlimit] at h
      note := fun e => .self (hleads.note e)
      enter := fun scope => .self (hleads.enter scope)
      printLine := fun line => .self (hleads.printLine line)
      newVariable := fun origin scope v => .self (hleads.newVariable origin scope v)
      lookupField := fun members name => .self (hleads.lookupField members name)
      lookupMethod := fun members name arity => .self (hleads.lookupMethod members name arity)
      store := fun site site' scope access members name o =>
        .self (hleads.store site site' scope access members name o) }

lemma programCongruence_extends {extra : Nat} (hlimit : ∀ site, limit.at site = limit)
    (hN : N.Related extra fun _ => Extends limit) :
    ProgramCongruence N extra (fun _ => Extends limit) fun _ _ => True :=
  (indifferent_extends hlimit).programCongruence hN
    (fun _ _ => .self programOrder_prints.leads_newFunction)
    fun _ _ => .self programOrder_prints.leads_findMain

/-- A step that the limit stops at once is extended by every step. -/
lemma extends_throw (hy : Leads World.Prints y) : Extends limit (throw limit) y :=
  ⟨hy, fun w => .inr ⟨rfl, hy w⟩⟩

/-! ### Depth -/

/-- With more depth a function of the host does the same, unless it was stopped for the want of it;
then it goes on from there, and what it printed stays printed. -/
def Natives.Steady (N : Natives) : Prop :=
  ∀ key objects depth extra,
    Extends .tooDeep (N.call key objects depth) (N.call key objects (extra + depth))

lemma Natives.Steady.leads (hN : N.Steady) (key : String) (objects : List Object) (depth : Nat) :
    Leads World.Prints (N.call key objects depth) := by
  have h := (hN key objects depth 0).leads
  rwa [Nat.zero_add] at h

/-- Functions that only print and do not ask for the depth are steady. -/
lemma Natives.OnlyPrint.steady (hN : N.OnlyPrint)
    (hdepth : ∀ key objects depth extra,
      N.call key objects (extra + depth) = N.call key objects depth) : N.Steady := by
  intro key objects depth extra
  rw [hdepth]
  exact .self (programOrder_prints.related hN 0 key objects depth)

lemma steady_twoFunctions : twoFunctions.Steady :=
  workOnArguments_twoFunctions.onlyPrint.steady fun _ _ _ _ => rfl

lemma Natives.Steady.related (hN : N.Steady) :
    N.Related 0 fun _ x _ => Leads World.Prints x :=
  fun key objects depth => hN.leads key objects depth

lemma leads_prints_at (hN : N.Steady) (fuel depth : Nat) :
    RelatedAt N (fun _ x _ => Leads World.Prints x) (fun _ _ => True) fuel depth fuel depth :=
  (programOrder_prints.indifferent.congruence hN.related).relatedAt_self
    programOrder_prints.indifferent.limits fuel depth

/-- Without depth left every rule stops, and is extended by the same rule with more depth. -/
lemma extends_zero (hN : N.Steady) (fuel extra : Nat) :
    RelatedAt N (fun _ => Extends .tooDeep) (fun _ _ => True) fuel 0 fuel extra where
  evaluate scope n := extends_throw ((leads_prints_at hN fuel extra).evaluate scope n)
  operation scope mark operator left right :=
    extends_throw ((leads_prints_at hN fuel extra).operation scope mark operator left right)
  condition scope n := extends_throw ((leads_prints_at hN fuel extra).condition scope n)
  arguments scope ns := extends_throw ((leads_prints_at hN fuel extra).arguments scope ns)
  call scope mark receiver name ns :=
    extends_throw ((leads_prints_at hN fuel extra).call scope mark receiver name ns)
  invoke _ := extends_throw ((leads_prints_at hN fuel extra).invoke trivial)
  block scope body := extends_throw ((leads_prints_at hN fuel extra).block scope body)
  execute scope n := extends_throw ((leads_prints_at hN fuel extra).execute scope n)
  assign scope mark receiver value :=
    extends_throw ((leads_prints_at hN fuel extra).assign scope mark receiver value)
  forLoop scope mark first c last body :=
    extends_throw ((leads_prints_at hN fuel extra).forLoop scope mark first c last body)

lemma extends_depth_at (hN : N.Steady) (fuel depth extra : Nat) :
    RelatedAt N (fun _ => Extends .tooDeep) (fun _ _ => True) fuel depth fuel (extra + depth) := by
  have h : Indifferent fun _ => Extends .tooDeep := indifferent_extends fun _ => rfl
  have hcong : Congruence N extra (fun _ => Extends .tooDeep) _ :=
    h.congruence fun key objects depth => hN key objects depth extra
  have hloops := hcong.repeatWhile h.limits fuel
  refine hcong.relatedAt hloops (extends_zero hN fuel extra) (fun _ => ?_)
    depth
  exact extends_throw ((leads_prints_at hN fuel (extra + 1)).invoke trivial)

/-- With more depth a program does the same or goes on from where it was stopped. -/
theorem extends_depth (hN : N.Steady) (hdepth : depth ≤ depth') (fuel : Nat) (globals : Scope)
    (p : Program) :
    Extends .tooDeep (program N fuel depth globals p) (program N fuel depth' globals p) := by
  obtain ⟨extra, rfl⟩ := Nat.exists_eq_add_of_le' hdepth
  have h : ProgramCongruence N extra (fun _ => Extends .tooDeep) _ :=
    programCongruence_extends (fun _ => rfl) fun key objects depth => hN key objects depth extra
  refine h.program (extends_depth_at hN fuel depth extra) (fun globals f => ?_) globals p
  cases depth with
  | zero =>
    have hleads := programOrder_prints.indifferent
    have hcong := hleads.congruence hN.related
    exact extends_throw (hcong.bindField_self hleads.limits fuel _ globals f)
  | succ depth => exact h.bindField_succ (extends_depth_at hN fuel depth extra) globals f

/-! ### Fuel -/

lemma leads_repeatWhile {c : Run Bool} {b : Run (Option Object)} (hc : Leads World.Prints c)
    (hb : Leads World.Prints b) (fuel : Nat) : Leads World.Prints (repeatWhile c b fuel) := by
  have h := programOrder_prints.indifferent
  have hnone := programOrder_prints.related Natives.workOnArguments_none.onlyPrint 0
  have hloops := (h.congruence hnone).repeatWhile h.limits fuel
  exact @hloops c c b b hc hb

lemma extends_loops (hfuel : fuel ≤ fuel') :
    RelatesLoops (fun _ => Extends .outOfFuel) fuel fuel' := by
  intro c c' b b' hc hb
  induction fuel generalizing fuel' with
  | zero => exact extends_throw (leads_repeatWhile hc.leads hb.leads fuel')
  | succ fuel ih =>
    obtain ⟨fuel', rfl⟩ := Nat.exists_eq_add_of_le' (Nat.lt_of_lt_of_le (Nat.succ_pos _) hfuel)
    have h : Indifferent fun _ => Extends .outOfFuel := indifferent_extends fun _ => rfl
    refine hc.bind fun holds => related_ite (hb.bind fun r => ?_) (h.pure none)
    cases r with
    | some o => exact h.pure (some o)
    | none => exact ih (Nat.le_of_succ_le_succ hfuel)

/-- With more fuel a program does the same or goes on from where it was stopped. -/
theorem extends_fuel (hN : N.Steady) (hfuel : fuel ≤ fuel') (depth : Nat) (globals : Scope)
    (p : Program) :
    Extends .outOfFuel (program N fuel depth globals p) (program N fuel' depth globals p) := by
  have h : ProgramCongruence N 0 (fun _ => Extends .outOfFuel) fun _ _ => True := by
    refine programCongruence_extends (fun _ => rfl) fun key objects depth => ?_
    rw [Nat.zero_add]
    exact .self (hN.leads key objects depth)
  have hdeep : ∀ {α : Type}, Extends .outOfFuel (tooDeep : Run α) tooDeep :=
    (indifferent_extends fun _ => rfl).throw _
  have hzero : RelatedAt N (fun _ => Extends .outOfFuel) (fun _ _ => True) fuel 0 fuel' 0 := by
    constructor <;> intros <;> exact hdeep
  have hat (depth) := h.relatedAt (extends_loops hfuel) hzero (fun _ => hdeep) depth
  simp only [Nat.zero_add] at hat
  refine h.program (hat depth) (fun globals f => ?_) globals p
  cases depth with
  | zero => exact hdeep
  | succ depth => exact h.bindField_succ (hat depth) globals f

/-! ### Runs that terminate -/

/-- Under the limit on depth the run of a program terminates in this way, whatever the limit on
loops that it takes to see it. -/
def RunsTo (N : Natives) (depth : Nat) (globals : Scope) (p : Program) (w : World)
    (r : Except Halt Object) (w' : World) : Prop :=
  r ≠ .error .outOfFuel ∧ ∃ fuel, outcome (run N fuel depth globals p) w = (r, w')

variable {globals : Scope} {p : Program} {w w' : World} {r : Except Halt Object}

/-- What a run prints under a limit it prints under a higher one. -/
lemma prints_of_depth (hN : N.Steady) (hdepth : depth ≤ depth') :
    (outcome (run N fuel depth globals p) w).2.Prints
      (outcome (run N fuel depth' globals p) w).2 := by
  rw [outcome_run, outcome_run]
  rcases (extends_depth hN hdepth fuel globals p).agrees w with heq | ⟨_, hprints⟩
  · rw [heq]
    exact programOrder_prints.refl _
  · exact hprints

/-- What was printed before a run stays printed. -/
lemma leads_prints_run (hN : N.Steady) (fuel depth : Nat) (globals : Scope) (p : Program) :
    Leads World.Prints (run N fuel depth globals p) := by
  intro w
  rw [outcome_run]
  exact (extends_depth hN (Nat.le_refl depth) fuel globals p).leads w

lemma extends_run_fuel (hN : N.Steady) (hfuel : fuel ≤ fuel') (depth : Nat) (globals : Scope)
    (p : Program) :
    Extends .outOfFuel (run N fuel depth globals p) (run N fuel' depth globals p) :=
  (extends_fuel hN hfuel depth globals p).mapError (fun _ => outcome_run) fun _ => outcome_run

/-- A run that terminates ends alike with more fuel. -/
lemma RunsTo.outcome_of_fuel (hN : N.Steady) (hr : r ≠ .error .outOfFuel)
    (h : outcome (run N fuel depth globals p) w = (r, w')) (hfuel : fuel ≤ fuel') :
    outcome (run N fuel' depth globals p) w = (r, w') := by
  rcases (extends_run_fuel hN hfuel depth globals p).agrees w with heq | ⟨hstop, _⟩
  · rw [← heq, h]
  · rw [h] at hstop
    exact absurd hstop hr

/-- What a run prints with some fuel it prints with more. -/
lemma prints_of_fuel (hN : N.Steady) (hfuel : fuel ≤ fuel') :
    (outcome (run N fuel depth globals p) w).2.Prints
      (outcome (run N fuel' depth globals p) w).2 := by
  rcases (extends_run_fuel hN hfuel depth globals p).agrees w with heq | ⟨_, hprints⟩
  · rw [heq]
    exact programOrder_prints.refl _
  · exact hprints

lemma RunsTo.intro (fuel : Nat) (h : (outcome (run N fuel depth globals p) w).1 = r)
    (hr : r ≠ .error .outOfFuel) :
    RunsTo N depth globals p w r (outcome (run N fuel depth globals p) w).2 :=
  ⟨hr, fuel, Prod.ext h rfl⟩

/-- A run prints nothing that a run under a higher limit, if it terminates, does not print. -/
lemma RunsTo.prints (hN : N.Steady) {r₁ r₂ : Except Halt Object} {w₁ w₂ : World}
    (hdepth : depth ≤ depth') (h₁ : RunsTo N depth globals p w r₁ w₁)
    (h₂ : RunsTo N depth' globals p w r₂ w₂) :
    w₁.Prints w₂ := by
  obtain ⟨_, fuel₁, hrun₁⟩ := h₁
  obtain ⟨hr₂, fuel₂, hrun₂⟩ := h₂
  have hhigher : (outcome (run N fuel₁ depth globals p) w).2.Prints _ :=
    prints_of_depth hN hdepth
  have hlonger := programOrder_prints.trans hhigher
    (prints_of_fuel hN (Nat.le_max_left fuel₁ fuel₂))
  rw [outcome_of_fuel hN hr₂ hrun₂ (Nat.le_max_right fuel₁ fuel₂), hrun₁] at hlonger
  exact hlonger

end LetDef.Execution
