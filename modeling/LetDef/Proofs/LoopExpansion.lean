import LetDef.Proofs.DepthGuard
import LetDef.Proofs.LoopExpansion.Analysis
import LetDef.Proofs.LoopExpansion.Execution
import LetDef.Proofs.Phases
import LetDef.Proofs.Store.Closed

/-!
# FOR loops agree with their expansions

Writing a FOR loop with WHILE, wherever it stands in a program, cannot be noticed, except by how
deeply the rules are nested: statements and runs end in the same way, print the same and leave the
same in all variables that there were before, and analysis accepts the same programs.
-/

namespace LetDef

/-- Something holds of two runs at the depths `d` and `d'` if neither is stopped by its depth. It is
enough that one is not if the other has no less room: the second run needs no more than five times
the depth of the first, and the first no more than the second. -/
structure UpToDepth (d d' : Nat) (deep deep' alike : Prop) : Prop where
  neither : ¬ deep → ¬ deep' → alike
  first : 5 * d ≤ d' → ¬ deep → alike
  second : d' ≤ d → ¬ deep' → alike

/-- A comparison from which each of the two runs may be left out if its depth stops it. -/
lemma UpToDepth.of_budget {d d' : Nat} {deep deep' alike : Prop} (base : Nat)
    (h : ∀ left right : Prop, Allowance.Budget ⟨left, right, base⟩ d d' →
      left ∧ deep ∨ right ∧ deep' ∨ alike) : UpToDepth d d' deep deep' alike where
  neither hdeep hdeep' := by
    rcases h True True ⟨.inl trivial, .inl trivial⟩ with ⟨-, h⟩ | ⟨-, h⟩ | h
    · exact absurd h hdeep
    · exact absurd h hdeep'
    · exact h
  first hd hdeep := by
    rcases h True False ⟨.inl trivial, .inr hd⟩ with ⟨-, h⟩ | ⟨h, -⟩ | h
    · exact absurd h hdeep
    · exact h.elim
    · exact h
  second hd hdeep' := by
    rcases h False True ⟨.inr hd, .inl trivial⟩ with ⟨h, -⟩ | ⟨-, h⟩ | h
    · exact h.elim
    · exact absurd h hdeep'
    · exact h

namespace Execution

variable {N : Natives} {α : Type} {left right : Prop} {fuel d d' : Nat} {w : World}
  {scope globals : Scope} {n n' : Node} {p p' : Program}

/-- Two runs end with the same result or halt, have printed the same and leave the same in the
variables of the frames below `base`. -/
structure EndsSame (base : Nat) (r r' : Except Halt α × World) : Prop where
  result : r'.1 = r.1
  output : r'.2.output = r.2.output
  vars : ∀ i < base, (r'.2.store.frame i).vars = (r.2.store.frame i).vars

/-- A closed world corresponds to itself. -/
lemma related_self (hw : w.store.Within w.store.frames.size) :
    w.Related w.store.frames.size (.identity w.store.frames.size) w where
  output := rfl
  store := Layout.relates_identity hw fun i g hg => Function.expands_self (hw.functions i g hg)

/-- Whoever knows only the common frames cannot tell corresponding worlds apart. -/
lemma endsSame_of_related {base : Nat} {φ : Layout} {w₁ w₂ : World} (r : Except Halt α)
    (h : w₁.Related base φ w₂) : EndsSame base (r, w₁) (r, w₂) :=
  ⟨rfl, h.output, fun _ hi => h.store.vars (h.store.fixed hi)⟩

/-- Steps that are in step end alike in a closed world. -/
lemma endsSame_of_inStep {p : α → Prop} {x y : Run α} (hw : w.store.Within w.store.frames.size)
    (h : (Comparison.mk ⟨left, right, w.store.frames.size⟩).pairing.InStep
      (.identity w.store.frames.size) (Pairing.Same p) x y) :
    left ∧ (outcome x w).1 = .error .tooDeep ∨ right ∧ (outcome y w).1 = .error .tooDeep ∨
      EndsSame w.store.frames.size (outcome x w) (outcome y w) := by
  have hxy := h (Layout.Le.refl _) (related_self hw)
  generalize outcome x w = r at hxy ⊢
  generalize outcome y w = r' at hxy ⊢
  cases hxy with
  | left hstop =>
    obtain ⟨hleft, rfl⟩ := hstop
    exact .inl ⟨hleft, rfl⟩
  | right hstop =>
    obtain ⟨hright, rfl⟩ := hstop
    exact .inr (.inl ⟨hright, rfl⟩)
  | ok _ hq hw =>
    obtain ⟨rfl, _⟩ := hq
    exact .inr (.inr (endsSame_of_related _ hw))
  | error _ hstop =>
    obtain ⟨rfl, hw⟩ := hstop
    exact .inr (.inr (endsSame_of_related _ hw))

/-- A statement and its expansion, in a closed world. -/
lemma execute_expands (hN : N.Impartial w.store.frames.size)
    (hw : w.store.Within w.store.frames.size) (hscope : scope.Within w.store.frames.size)
    (h : Node.Expands true n n') :
    UpToDepth d d' ((outcome (execute N fuel scope n d) w).1 = .error .tooDeep)
      ((outcome (execute N fuel scope n' d') w).1 = .error .tooDeep)
      (EndsSame w.store.frames.size (outcome (execute N fuel scope n d) w)
        (outcome (execute N fuel scope n' d') w)) := by
  have ho := (related_self hw).store.owns_of_within hscope
  exact .of_budget w.store.frames.size fun left right hb =>
    endsSame_of_inStep hw ((inStepAt (C := ⟨⟨left, right, _⟩⟩) hN fuel hb).execute ho h)

/-- A run and one of the expanded program, in a closed world. -/
lemma run_expands (hN : N.Impartial w.store.frames.size)
    (hw : w.store.Within w.store.frames.size) (hglobals : globals.Within w.store.frames.size)
    (h : p.Expands p') :
    UpToDepth d d' (Faults "R042" (outcome (run N fuel d globals p) w).1)
      (Faults "R042" (outcome (run N fuel d' globals p') w).1)
      (EndsSame w.store.frames.size (outcome (run N fuel d globals p) w)
        (outcome (run N fuel d' globals p') w)) := by
  refine .of_budget w.store.frames.size fun left right hb => ?_
  have hprogram := endsSame_of_inStep (x := program N fuel d globals p) hw
    (inStep_program (C := ⟨⟨left, right, _⟩⟩) hN hb hglobals h)
  rw [outcome_run, outcome_run, h.site]
  rcases hprogram with ⟨hleft, hdeep⟩ | ⟨hright, hdeep⟩ | hsame
  · rw [hdeep]
    exact .inl ⟨hleft, _, rfl, rfl⟩
  · rw [hdeep]
    exact .inr (.inl ⟨hright, _, rfl, rfl⟩)
  · exact .inr (.inr ⟨by rw [hsame.result], hsame.output, hsame.vars⟩)

end Execution

namespace Analysis

variable {d d' : Nat} {st : State} {globals : Scope} {p p' : Program}

/-- A program and its expansion, analysed from a closed store. -/
lemma analyze_expands (hst : st.store.Within st.store.frames.size)
    (hglobals : globals.Within st.store.frames.size)
    (hundecorated : ∀ m, st.decorations.get? m = none) (h : p.Expands p') :
    UpToDepth d d' (Faults "S005" (outcome (analyze d globals p) st).1)
      (Faults "S005" (outcome (analyze d' globals p') st).1)
      ((outcome (analyze d globals p) st).1 = .ok () ↔
        (outcome (analyze d' globals p') st).1 = .ok ()) := by
  refine .of_budget st.store.frames.size fun left right hb => ?_
  let C : Comparison := ⟨⟨left, right, st.store.frames.size⟩⟩
  have hstart : C.pairing.states (.identity st.store.frames.size) st st :=
    Layout.relates_identity hst fun i g hg => ⟨rfl, hst.functions i g hg⟩
  have hprogram := inStep_program (C := C) hb hglobals h.numbered (Layout.Le.refl _) hstart
  -- Analysis of an undecorated program meets no decoration, which leaves the depth as the only
  -- reason for one side to stop alone.
  have hclean := @analyze_clean d globals p st hundecorated
  have hclean' := @analyze_clean d' globals p' st hundecorated
  rw [outcome_analyze] at hclean hclean' ⊢
  rw [outcome_analyze, h.site]
  generalize outcome (program d globals p.numbered) st = r at hprogram hclean ⊢
  generalize outcome (program d' globals p'.numbered) st = r' at hprogram hclean' ⊢
  cases hprogram with
  | left hstop =>
    rcases hstop with ⟨hleft, rfl⟩ | ⟨kind, rfl⟩
    · exact .inl ⟨hleft, _, rfl, rfl⟩
    · rcases hclean with hclean | ⟨f, hclean⟩ <;> cases hclean
  | right hstop =>
    rcases hstop with ⟨hright, rfl⟩ | ⟨kind, rfl⟩
    · exact .inr (.inl ⟨hright, _, rfl, rfl⟩)
    · rcases hclean' with hclean' | ⟨f, hclean'⟩ <;> cases hclean'
  | ok => exact .inr (.inr (iff_of_true rfl rfl))
  | error => exact .inr (.inr (iff_of_false nofun nofun))

end Analysis

open Execution (World EndsSame Natives twoFunctions)

/-- A FOR loop with a condition, whose initializer is absent, a declaration or an assignment and
whose increment is absent or an assignment, may be written with WHILE, wherever it stands. In a
closed world a statement and its expansion end in the same way, with the same object given back or
the same fault, have printed the same and leave the same in all variables that there were; and so do
the runs of a program and of its expansion, if the functions of the host do not tell them apart.
Analysis accepts a program just if it accepts its expansion. Only the limits on depth can make a
difference. What hosts provide is closed (`Host.within_provide`), and so is the world in which a
program starts (`Execution.within_globalScope`). -/
theorem for_agrees_with_while :
    (∀ (N : Natives) (w : World) (scope : Scope) (n n' : Node),
      N.Impartial w.store.frames.size → w.store.Within w.store.frames.size →
      scope.Within w.store.frames.size → Node.Expands true n n' → ∀ fuel d d',
      UpToDepth d d' ((outcome (Execution.execute N fuel scope n d) w).1 = .error .tooDeep)
        ((outcome (Execution.execute N fuel scope n' d') w).1 = .error .tooDeep)
        (EndsSame w.store.frames.size (outcome (Execution.execute N fuel scope n d) w)
          (outcome (Execution.execute N fuel scope n' d') w))) ∧
    (∀ (N : Natives) (w : World) (globals : Scope) (p p' : Program),
      N.Impartial w.store.frames.size → w.store.Within w.store.frames.size →
      globals.Within w.store.frames.size → p.Expands p' → ∀ fuel d d',
      UpToDepth d d' (Execution.Faults "R042" (outcome (Execution.run N fuel d globals p) w).1)
        (Execution.Faults "R042" (outcome (Execution.run N fuel d' globals p') w).1)
        (EndsSame w.store.frames.size (outcome (Execution.run N fuel d globals p) w)
          (outcome (Execution.run N fuel d' globals p') w))) ∧
    ∀ (st : Analysis.State) (globals : Scope) (p p' : Program),
      st.store.Within st.store.frames.size → globals.Within st.store.frames.size →
      (∀ m, st.decorations.get? m = none) → p.Expands p' → ∀ d d',
      UpToDepth d d' (Analysis.Faults "S005" (outcome (Analysis.analyze d globals p) st).1)
        (Analysis.Faults "S005" (outcome (Analysis.analyze d' globals p') st).1)
        ((outcome (Analysis.analyze d globals p) st).1 = .ok () ↔
          (outcome (Analysis.analyze d' globals p') st).1 = .ok ()) :=
  ⟨fun _ _ _ _ _ hN hw hscope h _ _ _ => Execution.execute_expands hN hw hscope h,
    fun _ _ _ _ _ hN hw hglobals h _ _ _ => Execution.run_expands hN hw hglobals h,
    fun _ _ _ _ hst hglobals hundecorated h _ _ =>
      Analysis.analyze_expands hst hglobals hundecorated h⟩

/-- Functions that yield values and do not ask for the depth tell no runs apart. -/
lemma Execution.impartial_twoFunctions (base : Nat) : twoFunctions.Impartial base where
  arguments := workOnArguments_twoFunctions
  steady := steady_twoFunctions
  within _ h := by
    obtain ⟨rfl, rfl⟩ := gives_pure.1 h
    exact Object.within_of _

/-- A host with a box whose size is known, and with a function. -/
def boxHost : Host.Names where
  types := [⟨"Box", "Box", [.mk "size" "size" "Integer" false (.value (.integer 5)) none], []⟩]
  vars := [.mk "box" "box" "Box" false (.value .nil)
    (some ([.mk "size" "size" "Integer" false (.value (.integer 5)) none], []))]
  functions := [⟨"inc", "inc", ["Integer"], "Integer", "inc"⟩]

/-- What that host provides. -/
def boxed : Scope × Store :=
  (Host.provide boxHost {}).toOption.getD (⟨0, []⟩, {})

/-- A loop of the parts of `FOR (LET i = 0; i < box.size; i = inc(i))`, written in the given way.
Its body hides `i` by its double, prints it, and returns when it is 4. -/
def searchBy (loop : Node → Node → Node → List Node → Node) : Node :=
  loop (.declare {} "i" none (.ofInt 0))
    (.binary {} "<" (.access {} .absent "i") (.access {} (.access {} .absent "box") "size"))
    (.assign {} (.access {} .absent "i") (Execution.incCall (.access {} .absent "i")))
    [.declare {} "i" none (.binary {} "*" (.access {} .absent "i") (.ofInt 2)),
     .perform {} (.call {} .absent "print" [.access {} .absent "i"]),
     .branch {} (.binary {} "==" (.access {} .absent "i") (.ofInt 4))
      [.giveBack {} (.access {} .absent "i")] []]

/-- A program that runs the loop. -/
def searchProgram (loop : Node → Node → Node → List Node → Node) : Program where
  fields := []
  methods :=
    [{ name := "main", parameters := [], parameterTypes := [], returnType := some "Integer"
       body := [searchBy loop, .giveBack {} (.ofInt 0)] }]

lemma searchBy_expands : (searchBy (.forLoop {})).Expands true (searchBy (.expansion {})) :=
  .expand {} trivial rfl trivial (.refl _ _) (.refl _ _) (.refl _ _) (Node.Expands.reflAll _ _)

lemma searchProgram_expands :
    (searchProgram (.forLoop {})).Expands (searchProgram (.expansion {})) where
  position := rfl
  fields := .nil
  methods :=
    .cons ⟨rfl, rfl, rfl, rfl, rfl, .cons searchBy_expands (Node.Expands.reflAll _ _)⟩ .nil

lemma boxed_within : boxed.2.Within boxed.2.frames.size ∧
    ∀ scope ∈ some boxed.1, scope.Within boxed.2.frames.size := by
  have hprovided : Host.provide boxHost {} = .ok (boxed.1, boxed.2) := rfl
  obtain ⟨hs, hscope⟩ := Host.within_provide hprovided
  exact ⟨hs, by simpa only [Option.mem_def, Option.some.injEq, forall_eq'] using hscope⟩

theorem for_agrees_with_while_search :
    let globals := Execution.globalScope (some boxed.1) boxed.2
    let execute d loop :=
      outcome (Execution.execute twoFunctions 9 globals.1 (searchBy loop) d) { store := globals.2 }
    let run d loop :=
      outcome (Execution.run twoFunctions 9 d globals.1 (searchProgram loop)) { store := globals.2 }
    let typed := Analysis.globalScope (some boxed.1) boxed.2
    let analyze d loop :=
      outcome (Analysis.analyze d typed.1 (searchProgram loop)) { store := typed.2 }
    EndsSame 4 (execute 60 (.forLoop {})) (execute 300 (.expansion {})) ∧
      EndsSame 4 (run 60 (.forLoop {})) (run 300 (.expansion {})) ∧
      (run 300 (.expansion {})).1 = .ok (.of (.integer 4)) ∧
      (analyze 300 (.expansion {})).1 = .ok () := by
  intro globals execute run typed analyze
  obtain ⟨hs, hscope⟩ := boxed_within
  obtain ⟨hw, hglobals⟩ := Execution.within_globalScope hs hscope
  obtain ⟨hst, htyped⟩ := Analysis.within_globalScope hs hscope
  obtain ⟨hexecute, hrun, hanalyze⟩ := for_agrees_with_while
  have hresult : (run 60 (.forLoop {})).1 = .ok (.of (.integer 4)) := by decide +kernel
  have haccepted : (analyze 60 (.forLoop {})).1 = .ok () := by decide +kernel
  have hshallow : (execute 60 (.forLoop {})).1 ≠ .error .tooDeep := by decide +kernel
  have hhost (base) := Execution.impartial_twoFunctions base
  have hran := (hrun _ { store := globals.2 } _ _ _ (hhost _) hw hglobals searchProgram_expands 9 60
    300).first le_rfl (by rintro ⟨f, hf, -⟩; cases hresult.symm.trans hf)
  have htried := hanalyze { store := typed.2 } _ _ _ hst htyped (fun _ => rfl)
    searchProgram_expands 60 300
  refine ⟨?_, hran, hran.result.trans hresult, (htried.first le_rfl ?_).1 haccepted⟩
  · exact (hexecute _ { store := globals.2 } _ _ _ (hhost _) hw hglobals searchBy_expands 9 60
      300).first le_rfl hshallow
  · rintro ⟨f, hf, -⟩
    cases haccepted.symm.trans hf

end LetDef
