import LetDef.Proofs.Analysis.Congruence
import LetDef.Proofs.Execution.Limits

/-!
# The guard against deep nesting is transparent

Analysis and runs stop with a fault where they are nested too deeply. Under a higher limit, what did
not stop so ends as before and leaves the same behind. A run that did stop so has printed nothing
that it would not print under the higher limit.
-/

namespace LetDef

namespace Execution

/-- The run ends with a fault of the code. -/
def Faults {α : Type} (code : String) (r : Except Halt α) : Prop :=
  ∃ f, r = .error (.fault f) ∧ f.cause.code? = some code

variable {N : Natives} {depth depth' fuel : Nat} {globals : Scope} {p : Program} {w : World}

/-- A run that does not stop for want of depth ends alike under a higher limit. -/
lemma outcome_of_depth (hN : N.Steady) (hdepth : depth ≤ depth')
    (h : ¬ Faults "R042" (outcome (run N fuel depth globals p) w).1) :
    outcome (run N fuel depth' globals p) w = outcome (run N fuel depth globals p) w := by
  rw [outcome_run] at h ⊢
  rw [outcome_run]
  rcases (extends_depth hN hdepth fuel globals p).agrees w with heq | ⟨hstop, _⟩
  · rw [heq]
  · rw [hstop] at h
    exact absurd ⟨_, rfl, rfl⟩ h

end Execution

namespace Analysis

/-- Analysis ends with a fault of the code. -/
def Faults {α : Type} (code : String) (r : Except Halt α) : Prop :=
  ∃ f, r = .error (.fault f) ∧ f.cause.code? = some code

/-- The second step does what the first does, unless the first is stopped for want of depth. -/
def Deepens {α : Type} (x y : Analyze α) : Prop :=
  ∀ st, outcome x st = outcome y st ∨ (outcome x st).1 = .error .tooDeep

variable {α β : Type} {x y : Analyze α} {depth depth' : Nat}

lemma deepens_self (x : Analyze α) : Deepens x x :=
  fun _ => .inl rfl

lemma Deepens.bind {f g : α → Analyze β} (hx : Deepens x y) (hf : ∀ a, Deepens (f a) (g a)) :
    Deepens (x >>= f) (y >>= g) := by
  intro st
  rw [outcome_bind, outcome_bind]
  rcases hx st with heq | hdeep
  · rw [heq]
    rcases outcome y st with ⟨halt | a, st₁⟩
    · exact .inl rfl
    · exact hf a st₁
  · rcases hout : outcome x st with ⟨halt | a, st₁⟩ <;> rw [hout] at hdeep
    · exact .inr (congrArg Except.error (Except.error.inj hdeep))
    · cases hdeep

lemma Deepens.resolving (hx : Deepens x y) (site : Site) :
    Deepens (resolving site x) (resolving site y) := by
  intro st
  rw [outcome_resolving, outcome_resolving]
  rcases hx st with heq | hdeep
  · exact .inl (by rw [heq])
  · exact .inr (by rw [hdeep]; rfl)

lemma congruence_deepens : Congruence fun _ _ x y => Deepens x y where
  pure _ := deepens_self _
  bind := Deepens.bind
  fail _ _ := deepens_self _
  tooDeep _ _ := .inr rfl
  resolving site hx := hx.resolving site
  decorate _ _ _ := deepens_self _
  resolve _ _ := deepens_self _
  lookupField _ _ _ := deepens_self _
  lookupMethod _ _ _ _ _ := deepens_self _
  addVariable _ _ _ := deepens_self _
  addFunction _ _ _ := deepens_self _
  enter _ := deepens_self _
  accessed _ := deepens_self _
  findMain _ _ := deepens_self _

/-- Analysis that does not stop for want of depth ends alike under a higher limit. -/
lemma analyze_of_depth {globals : Scope} {p : Program} {st : State} (hdepth : depth ≤ depth')
    (h : ¬ Faults "S005" (outcome (analyze depth globals p) st).1) :
    outcome (analyze depth' globals p) st = outcome (analyze depth globals p) st := by
  rw [outcome_analyze] at h ⊢
  rw [outcome_analyze]
  rcases congruence_deepens.program hdepth globals p.numbered st with heq | hdeep
  · rw [heq]
  · rw [hdeep] at h
    exact absurd ⟨_, rfl, rfl⟩ h

end Analysis

open Execution (Natives RunsTo World incStart twoFunctions)

/-- Let the functions of the host be steady. Of two limits on depth, the higher one then changes
nothing where the lower one does not stop: a run that terminates otherwise terminates with the same
value or fault and leaves the same world, what it has printed included, and so does analysis with
its decorations. A run that the lower limit does stop has printed the beginning of what it prints
under the higher one, if it terminates there. -/
theorem depth_guard_transparent {N : Natives} (hN : N.Steady) {limit limit' : Nat}
    (hlimit : limit ≤ limit') (globals : Scope) (p : Program) :
    (∀ w r w', RunsTo N limit globals p w r w' → ¬ Execution.Faults "R042" r →
      RunsTo N limit' globals p w r w') ∧
    (∀ w r₁ w₁ r₂ w₂, RunsTo N limit globals p w r₁ w₁ → Execution.Faults "R042" r₁ →
      RunsTo N limit' globals p w r₂ w₂ →
      ∃ printed rest, w₁.output = w.output ++ printed ∧ w₂.output = w.output ++ printed ++ rest) ∧
    (∀ st, ¬ Analysis.Faults "S005" (outcome (Analysis.analyze limit globals p) st).1 →
      outcome (Analysis.analyze limit' globals p) st
        = outcome (Analysis.analyze limit globals p) st) := by
  refine ⟨?_, ?_, fun st => Analysis.analyze_of_depth hlimit⟩
  · rintro w r w' ⟨hr, fuel, hrun⟩ hfault
    have hsame : outcome (Execution.run N fuel limit' globals p) w = _ :=
      Execution.outcome_of_depth hN hlimit (by rwa [hrun])
    exact ⟨hr, fuel, hsame.trans hrun⟩
  · intro w r₁ w₁ r₂ w₂ h₁ _ h₂
    obtain ⟨rest, hrest⟩ := h₁.prints hN hlimit h₂
    obtain ⟨_, fuel, hrun⟩ := h₁
    obtain ⟨printed, hprinted⟩ := Execution.leads_prints_run hN fuel limit globals p w
    rw [hrun] at hprinted
    exact ⟨printed, rest, hprinted, by rw [hrest, hprinted]⟩

/-- The literal of an integer. -/
def Node.ofInt (n : Int) : Node :=
  .literal {} (.value (.integer n)) "integer"

/-- A program that prints on its way down a chain of calls, the last of which is one of a function
of the host. -/
def countdown : Program where
  fields := []
  methods :=
    [{ name := "down", parameters := ["n"], parameterTypes := ["Integer"]
       returnType := some "Integer"
       body :=
        [.perform {} (.call {} .absent "print" [.access {} .absent "n"]),
         .branch {} (.binary {} "==" (.access {} .absent "n") (.ofInt 0))
          [.giveBack {} (Execution.incCall (.ofInt 6))] [],
         .giveBack {} (.call {} .absent "down"
          [.binary {} "-" (.access {} .absent "n") (.ofInt 1)])] },
     { name := "main", parameters := [], parameterTypes := [], returnType := some "Integer"
       body := [.giveBack {} (.call {} .absent "down" [.ofInt 2])] }]

/-- The scope of the analysis of a program over the small host, and the state with both. -/
def incTyped : Scope × Analysis.State :=
  ((Analysis.globalScope (some ⟨0, []⟩) Execution.incStore).1,
    { store := (Analysis.globalScope (some ⟨0, []⟩) Execution.incStore).2 })

lemma countdown_outcomes :
    (outcome (Execution.run twoFunctions 9 20 incStart.1 countdown) incStart.2).1
        = .error (.fault ⟨.callDepth, countdown.site⟩) ∧
      (outcome (Execution.run twoFunctions 9 35 incStart.1 countdown) incStart.2).1
        = .ok (.of (.integer 7)) ∧
      (outcome (Analysis.analyze 20 incTyped.1 countdown) incTyped.2).1 = .ok () := by
  decide +kernel

theorem depth_guard_transparent_countdown : ∃ w₁ w₂ printed rest,
    RunsTo twoFunctions 20 incStart.1 countdown incStart.2
      (.error (.fault ⟨.callDepth, countdown.site⟩)) w₁ ∧
    RunsTo twoFunctions 35 incStart.1 countdown incStart.2 (.ok (.of (.integer 7))) w₂ ∧
    RunsTo twoFunctions 40 incStart.1 countdown incStart.2 (.ok (.of (.integer 7))) w₂ ∧
    w₁.output = incStart.2.output ++ printed ∧ w₂.output = incStart.2.output ++ printed ++ rest ∧
    outcome (Analysis.analyze 35 incTyped.1 countdown) incTyped.2
      = outcome (Analysis.analyze 20 incTyped.1 countdown) incTyped.2 := by
  have hN := Execution.steady_twoFunctions
  obtain ⟨_, hprints, _⟩ := depth_guard_transparent hN (by decide : 20 ≤ 35) incStart.1 countdown
  obtain ⟨hsame, _⟩ := depth_guard_transparent hN (by decide : 35 ≤ 40) incStart.1 countdown
  obtain ⟨_, _, hanalysis⟩ :=
    depth_guard_transparent hN (by decide : 20 ≤ 35) incTyped.1 countdown
  obtain ⟨hstops, hends, hanalysed⟩ := countdown_outcomes
  have h₁ := RunsTo.intro 9 hstops (by simp)
  have h₂ := RunsTo.intro 9 hends (by simp)
  obtain ⟨printed, rest, hprinted, hrest⟩ := hprints _ _ _ _ _ h₁ ⟨_, rfl, rfl⟩ h₂
  have h₃ := hsame _ _ _ h₂ (by simp [Execution.Faults])
  refine ⟨_, _, printed, rest, h₁, h₂, h₃, hprinted, hrest, hanalysis _ ?_⟩
  rw [hanalysed]
  simp [Analysis.Faults]

end LetDef
