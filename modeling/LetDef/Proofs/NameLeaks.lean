import LetDef.Proofs.Execution.Footprint
import LetDef.Proofs.MethodOrder

/-!
# Execution leaks no names

However a statement ends, the scopes that were there before it have the names that they had. Only
the scope in which it is executed may have one more, which is the name that the statement declares.
So what a program leaves in its global scope are its own fields and methods, as far as the run came.
-/

namespace LetDef.Execution

variable {N : Natives} {α : Type} {scope globals : Scope} {n : Node} {w w₁ : World}
  {fuel depth : Nat}

/-! ### Statements -/

/-- What a statement declares if it ends as given, without a value. -/
def declared : Node → Except Halt (Option Object) → List (String × Ty × Bool)
  | .declare _ name _ _, .ok _ => [(name, .any, false)]
  | _, _ => []

/-- What becomes of the frames of a store when a statement is executed in a scope and ends as given:
no function is defined, and to the variables in their order, with their names and types and
constant or not, only the one is added that the statement declares, in the scope itself. -/
structure NamesKept (scope : Scope) (n : Node) (s : Store)
    (ending : Except Halt (Option Object) × World) : Prop where
  size : s.frames.size ≤ ending.2.store.frames.size
  functions {i : FrameId} : i < s.frames.size →
    (ending.2.store.frame i).functions = (s.frame i).functions
  others {i : FrameId} : i < s.frames.size → i ≠ scope.frame →
    (ending.2.store.frame i).outline = (s.frame i).outline
  own : scope.frame < s.frames.size →
    (ending.2.store.frame scope.frame).outline
      = (s.frame scope.frame).outline ++ declared n ending.1

lemma outline_addVariable {s : Store} {v : Variable} (h : scope.frame < s.frames.size) :
    ((s.addVariable scope v).frame scope.frame).outline
      = (s.frame scope.frame).outline ++ [(v.name, v.type, v.constant)] := by
  rw [Store.frame_addVariable_self h]
  unfold Frame.outline
  rw [List.map_append]
  rfl

/-- A variable is added to its scope if and only if it is defined with success. -/
lemma outline_define {x : Run Object} (hx : Grown none x) (site : Site) (origin : Origin)
    (name : String) (t : Ty) (constant : Bool) (hsize : scope.frame < w.store.frames.size) :
    ∃ r w', outcome (x >>= fun o => addVariable site origin scope ⟨name, name, t, constant, o⟩) w
        = (r, w') ∧
      (w'.store.frame scope.frame).outline = (w.store.frame scope.frame).outline ++
        if r.isOk then [(name, t, constant)] else [] := by
  have hgrows := hx w
  rw [outcome_bind]
  rcases hx : outcome x w with ⟨halt | o, w₁⟩ <;> rw [hx] at hgrows
  all_goals
    have hsame := hgrows.others _ hsize (by simp)
    dsimp only at hsame
  · exact ⟨_, _, rfl, hsame.trans (List.append_nil _).symm⟩
  · have hsize₁ := Nat.lt_of_lt_of_le hsize hgrows.size
    unfold addVariable
    dsimp only
    rw [outcome_resolving, outcome_newVariable]
    cases w₁.store.variableConflict? scope name with
    | none =>
      refine ⟨_, _, rfl, ?_⟩
      rw [← hsame]
      exact outline_addVariable hsize₁
    | some e => exact ⟨_, _, rfl, hsame.trans (List.append_nil _).symm⟩

lemma namesKept_declare (hN : N.OnlyPrint) {mark : Mark} {name : String}
    {typeName : Option String} {value : Node} :
    NamesKept scope (.declare mark name typeName value) w.store
      (outcome (execute N fuel scope (.declare mark name typeName value) (depth + 1)) w) := by
  have hgrows := (confined hN fuel (depth + 1)).execute scope
    (.declare mark name typeName value) w
  refine ⟨hgrows.size, fun _ => hgrows.functions _, fun hi hne => ?_, fun hsize => ?_⟩
  · exact hgrows.others _ hi (by simpa using hne.symm)
  · rw [execute_declare, ← bind_assoc, outcome_bind]
    obtain ⟨r, w', hout, houtline⟩ := outline_define ((confined hN fuel depth).initial scope value)
      (Node.declare mark name typeName value).site (.declaration mark) name .any false hsize
    rw [hout]
    cases r <;> exact houtline

/-- Whatever statement is executed, names are kept. -/
lemma namesKept (hN : N.OnlyPrint) (fuel depth : Nat) (scope : Scope) (n : Node) (w : World) :
    NamesKept scope n w.store (outcome (execute N fuel scope n depth) w) := by
  cases depth with
  | zero =>
    refine ⟨Nat.le_refl _, fun _ => rfl, fun _ _ => rfl, fun _ => ?_⟩
    cases n <;> exact (List.append_nil _).symm
  | succ depth =>
    by_cases hn : ∃ mark name typeName value, n = .declare mark name typeName value
    · obtain ⟨mark, name, typeName, value, rfl⟩ := hn
      exact namesKept_declare hN
    · have hnone : ∀ r, declared n r = [] := by
        intro r
        unfold declared
        split
        · exact absurd ⟨_, _, _, _, rfl⟩ hn
        · rfl
      have hgrows := (confined hN fuel depth).execute_succ_of_not_declare scope
        (fun mark name typeName value heq => hn ⟨mark, name, typeName, value, heq⟩) w
      refine ⟨hgrows.size, fun _ => hgrows.functions _, fun hi _ => ?_, fun hsize => ?_⟩
      · exact hgrows.others _ hi (by simp)
      · rw [hnone, List.append_nil]
        exact hgrows.others _ hsize (by simp)

/-! ### Programs -/

/-- A field as a variable without a value. -/
def fieldEntry (f : Field) : String × Ty × Bool :=
  (f.name, .any, f.constant)

/-- The part of a run before the main method is invoked. -/
def prepare (N : Natives) (fuel depth : Nat) (globals : Scope) (p : Program) : Run Function := do
  p.fields.forM fun f => bindField N fuel globals f depth
  p.methods.forM fun m => addFunction m.site globals (methodFunction globals m)
  findMain globals p.site

lemma program_eq (N : Natives) (fuel depth : Nat) (globals : Scope) (p : Program) :
    program N fuel depth globals p
      = prepare N fuel depth globals p >>= fun g => invoke N fuel g [] depth := by
  unfold program prepare
  simp only [bind_assoc]

/-- The names in a global scope are those of the fields and methods given, and `print`. -/
structure Lists (globals : Scope) (fs : List Field) (ms : List Method) (s : Store) : Prop where
  size : globals.frame < s.frames.size
  fields : (s.frame globals.frame).outline = fs.map fieldEntry
  methods : (s.frame globals.frame).functions = printFunction :: methodFunctions globals ms

variable {fs gs : List Field} {ms : List Method} {p : Program}

lemma Lists.grows {s t : Store} (h : Lists globals fs ms s) (hgrows : s.Grows none t) :
    Lists globals fs ms t where
  size := Nat.lt_of_lt_of_le h.size hgrows.size
  fields := by rw [hgrows.others _ h.size (by simp), h.fields]
  methods := by rw [hgrows.functions, h.methods]

/-- A field is added if it is bound. -/
lemma Lists.bindField (hN : N.OnlyPrint) (h : Lists globals fs [] w.store) (fuel depth : Nat)
    (f : Field) :
    ∃ r w', outcome (bindField N fuel globals f depth) w = (r, w') ∧
      Lists globals (if r.isOk then fs ++ [f] else fs) [] w'.store := by
  cases depth with
  | zero => exact ⟨_, _, rfl, h⟩
  | succ depth =>
    have hinitial := (confined hN fuel depth).initial globals f.value
    have hgrows :
        Grown (some globals.frame) (Execution.bindField N fuel globals f (depth + 1)) := by
      rw [bindField_succ]
      exact (hinitial.weaken _).bind fun o => .addVariable
    obtain ⟨r, w', hout, houtline⟩ := outline_define hinitial f.site (.declaration f.mark) f.name
      .any f.constant h.size
    rw [← bindField_succ] at hout
    refine ⟨r, w', hout, ?_, ?_, ?_⟩
    all_goals
      have hw := hgrows w
      rw [hout] at hw
    · exact Nat.lt_of_lt_of_le h.size hw.size
    · rw [houtline, h.fields]
      cases r with
      | error _ => exact List.append_nil _
      | ok _ =>
        change fs.map fieldEntry ++ [f].map fieldEntry = (fs ++ [f]).map fieldEntry
        exact List.map_append.symm
    · rw [hw.functions, h.methods]

/-- Fields are added in their order up to one that cannot be bound. -/
lemma Lists.bindFields (hN : N.OnlyPrint) (h : Lists globals fs [] w.store) (fuel depth : Nat)
    (gs : List Field) :
    ∃ r w' hs, outcome (gs.forM fun f => Execution.bindField N fuel globals f depth) w = (r, w') ∧
      hs <+: gs ∧ (r.isOk → hs = gs) ∧ Lists globals (fs ++ hs) [] w'.store := by
  induction gs generalizing fs w with
  | nil => exact ⟨_, _, [], rfl, List.prefix_rfl, fun _ => rfl, by simpa using h⟩
  | cons g gs ih =>
    obtain ⟨r, w₁, hout, hlists⟩ := h.bindField hN fuel depth g
    change ∃ r w' hs, outcome (Execution.bindField N fuel globals g depth >>= fun _ =>
      gs.forM fun f => Execution.bindField N fuel globals f depth) w = (r, w') ∧ _
    rw [outcome_bind, hout]
    cases r with
    | error halt =>
      refine ⟨_, _, [], rfl, List.nil_prefix, nofun, ?_⟩
      rw [List.append_nil]
      exact hlists
    | ok u =>
      obtain ⟨r, w', hs, hrest, hprefix, hall, hlists'⟩ := ih hlists
      refine ⟨r, w', g :: hs, hrest, ?_, fun hr => by rw [hall hr], ?_⟩
      · exact (List.prefix_cons_inj g).2 hprefix
      · rw [List.append_cons]
        exact hlists'

/-- Methods are added in their order up to one whose key is taken. -/
lemma Lists.define (h : Lists globals fs ms w.store) (ns : List Method) :
    ∃ r w' hs, outcome (Execution.define globals ns) w = (r, w') ∧
      hs <+: ns ∧ (r.isOk → hs = ns) ∧ Lists globals fs (ms ++ hs) w'.store := by
  induction ns generalizing ms w with
  | nil => exact ⟨_, _, [], rfl, List.prefix_rfl, fun _ => rfl, by simpa using h⟩
  | cons m ns ih =>
    change ∃ r w' hs, outcome (addFunction m.site globals (methodFunction globals m) >>= fun _ =>
      Execution.define globals ns) w = (r, w') ∧ _
    rw [outcome_bind]
    by_cases htaken : m.key ∈ w.keys globals
    · rw [outcome_addFunction_of_mem htaken]
      exact ⟨_, _, [], rfl, List.nil_prefix, nofun, by simpa using h⟩
    · obtain ⟨w₁, hgives, hgains⟩ := gives_addFunction h.size htaken
      have hlists : Lists globals fs (ms ++ [m]) w₁.store := by
        refine ⟨hgains.size ▸ h.size, ?_, ?_⟩
        · rw [Frame.outline, hgains.vars]
          exact h.fields
        · rw [hgains.own, h.methods]
          simp [methodFunctions]
      obtain ⟨r, w', hs, hrest, hprefix, hall, hlists'⟩ := ih hlists
      rw [hgives]
      refine ⟨r, w', m :: hs, hrest, ?_, fun hr => by rw [hall hr], by simpa using hlists'⟩
      exact (List.prefix_cons_inj m).2 hprefix

/-- A run has left the names of an initial segment of the fields and of one of the methods, and of
all of them if it came to invoke the main method. -/
def LeavesOwnNames (globals : Scope) (p : Program) (prepared : Prop) (s : Store) : Prop :=
  ∃ fs ms, fs <+: p.fields ∧ ms <+: p.methods ∧ (ms ≠ [] → fs = p.fields) ∧
    (prepared → fs = p.fields ∧ ms = p.methods) ∧ Lists globals fs ms s

lemma LeavesOwnNames.prepare (hN : N.OnlyPrint) (h : Lists globals [] [] w.store)
    (fuel depth : Nat) (p : Program) :
    ∃ r w', outcome (prepare N fuel depth globals p) w = (r, w') ∧
      LeavesOwnNames globals p (r.isOk) w'.store := by
  obtain ⟨r, w₁, fs, hfields, hfs, hall, hlists⟩ := h.bindFields hN fuel depth p.fields
  rw [List.nil_append] at hlists
  unfold Execution.prepare
  rw [outcome_bind, hfields]
  cases r with
  | error halt => exact ⟨_, _, rfl, fs, [], hfs, List.nil_prefix, nofun, nofun, hlists⟩
  | ok u =>
    obtain rfl := hall rfl
    obtain ⟨r, w₂, ms, hmethods, hms, hall', hlists'⟩ := hlists.define p.methods
    rw [List.nil_append] at hlists'
    change ∃ r w', outcome (Execution.define globals p.methods >>= fun _ =>
      findMain globals p.site) w₁ = (r, w') ∧ _
    rw [outcome_bind, hmethods]
    cases r with
    | error halt =>
      exact ⟨_, _, rfl, p.fields, ms, hfs, hms, fun _ => rfl, nofun, hlists'⟩
    | ok u =>
      obtain rfl := hall' rfl
      dsimp only
      rw [outcome_findMain]
      exact ⟨_, _, rfl, p.fields, p.methods, hfs, hms, fun _ => rfl, fun _ => ⟨rfl, rfl⟩, hlists'⟩

lemma lists_globalScope (parent : Option Scope) (host : Store) :
    Lists (globalScope parent host).1 [] [] (globalScope parent host).2 := by
  have hsize : (host.enter parent).1.frame < (host.enter parent).2.frames.size := by
    rw [Store.size_enter]
    exact Nat.lt_succ_self _
  have hempty : (host.enter parent).2.frame (host.enter parent).1.frame = {} := by
    rw [Store.frame_enter]
    exact Store.frame_of_size_le (Nat.le_refl _)
  unfold globalScope
  refine ⟨?_, ?_, ?_⟩
  · rw [Store.size_addFunction]
    exact hsize
  · rw [Frame.outline, Store.vars_addFunction, hempty]
    rfl
  · rw [Store.functions_addFunction_self hsize, hempty]
    rfl

/-- The main method is invoked with the names that the run has prepared, and adds none. -/
lemma leavesOwnNames_run (hN : N.OnlyPrint) (h : Lists globals [] [] w.store) (fuel depth : Nat)
    (p : Program) :
    LeavesOwnNames globals p ((outcome (prepare N fuel depth globals p) w).1.isOk)
      (outcome (run N fuel depth globals p) w).2.store := by
  obtain ⟨r, w₁, hprepare, hleaves⟩ := LeavesOwnNames.prepare hN h fuel depth p
  rw [outcome_run, program_eq, outcome_bind, hprepare]
  cases r with
  | error halt => exact hleaves
  | ok g =>
    obtain ⟨fs, ms, hfs, hms, hlast, hall, hlists⟩ := hleaves
    exact ⟨fs, ms, hfs, hms, hlast, hall, hlists.grows ((confined hN fuel depth).invoke g [] w₁)⟩

/-- If the functions of the host only print, execution leaks no names: a statement leaves at most
the one that it declares, in the scope in which it is executed, and a run of a program leaves its
own fields and methods, as far as it comes, and all of them once the main method is invoked. -/
theorem no_name_leaks (hN : N.OnlyPrint) (fuel depth : Nat) :
    (∀ scope n w, NamesKept scope n w.store (outcome (execute N fuel scope n depth) w)) ∧
    ∀ (parent : Option Scope) (host : Store) (p : Program) (w : World),
      let globals := (globalScope parent host).1
      let w := { w with store := (globalScope parent host).2 }
      program N fuel depth globals p
        = prepare N fuel depth globals p >>= (fun g => invoke N fuel g [] depth) ∧
      LeavesOwnNames globals p ((outcome (prepare N fuel depth globals p) w).1.isOk)
        (outcome (run N fuel depth globals p) w).2.store :=
  ⟨namesKept hN fuel depth, fun parent host p _ => ⟨program_eq N fuel depth _ p,
    leavesOwnNames_run hN (lists_globalScope parent host) fuel depth p⟩⟩

/-- A statement that declares what a function of the host yields. -/
def declareNext : Node :=
  .declare {} "b" none (incCall (.access {} .absent "a"))

/-- A program with a field and the local variable that is declared so. -/
def nextProgram : Program where
  fields :=
    [{ name := "a", constant := false, typeName := none
       value := .literal {} (.value (.integer 1)) "integer" }]
  methods :=
    [{ name := "main", parameters := [], parameterTypes := [], returnType := none
       body := [declareNext, .giveBack {} (.access {} .absent "b")] }]

/-- The run leaves the field and the main method in its scope, and not the local variable. The
declaration alone stops in that scope, where it does not know the field, and leaves nothing. -/
theorem no_name_leaks_next :
    LeavesOwnNames incStart.1 nextProgram True
      (outcome (run twoFunctions 9 19 incStart.1 nextProgram) incStart.2).2.store ∧
    (outcome (run twoFunctions 9 19 incStart.1 nextProgram) incStart.2).1
      = .ok (.of (.integer 2)) ∧
    NamesKept incStart.1 declareNext incStart.2.store
      (outcome (execute twoFunctions 9 incStart.1 declareNext 19) incStart.2) := by
  obtain ⟨hkept, hruns⟩ := no_name_leaks workOnArguments_twoFunctions.onlyPrint 9 19
  have hprepared : (outcome (prepare twoFunctions 9 19 incStart.1 nextProgram) incStart.2).1.isOk
      ∧ (outcome (run twoFunctions 9 19 incStart.1 nextProgram) incStart.2).1
        = .ok (.of (.integer 2)) := by decide +kernel
  obtain ⟨-, fs, ms, hfs, hms, hlast, hall, hlists⟩ :=
    hruns (some ⟨0, []⟩) incStore nextProgram {}
  exact ⟨⟨fs, ms, hfs, hms, hlast, fun _ => hall hprepared.1, hlists⟩, hprepared.2, hkept _ _ _⟩

end LetDef.Execution
