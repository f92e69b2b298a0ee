import LetDef.Proofs.Execution.Limits
import LetDef.Proofs.LoopExpansion.Syntax
import LetDef.Proofs.Lockstep
import Mathlib.Tactic.IntervalCases

/-!
# Runs of loops and of their expansions

A run of a tree and a run of the tree with loops expanded are in step. Their scopes correspond but
for the scopes of the loops that the expansion adds, in which nothing is ever defined. One of the
runs may be nested too deeply where the other is not; then nothing is said, unless the depths leave
no room for that.
-/

namespace LetDef

/-- The second body of a function is the first with loops expanded. -/
inductive Body.Expands (base : Nat) : Body → Body → Prop
  | native (n : Native) : Expands base (.native n) (.native n)
  | method {m m' : Method} {home : Scope} (hm : m.Expands m') (hhome : home.Within base) :
      Expands base (.method m home) (.method m' home)

/-- The second function is the first with loops expanded. -/
structure Function.Expands (base : Nat) (g g' : Function) : Prop where
  eq : g' = { g with body := g'.body }
  body : g.body.Expands base g'.body

lemma Function.Expands.key {base : Nat} {g g' : Function} (h : g.Expands base g') :
    g'.key = g.key := by
  rw [h.eq]
  rfl

lemma Function.expands_self {base : Nat} {g : Function} (h : g.Within base) : g.Expands base g where
  eq := rfl
  body := by
    cases hbody : g.body with
    | native n => exact .native n
    | method m home => exact .method (.refl m) (h.home hbody)

namespace Execution

open Layout (Le Sees Owns)
open Pairing (Agree Same)

/-- A single statement is executed. -/
lemma executeAll_singleton (f : Node → Run (Option Object)) (n : Node) :
    executeAll f [n] = f n := by
  rw [executeAll]
  conv_rhs => rw [← bind_pure (f n)]
  congr
  funext r
  cases r <;> rfl

/-- The worlds correspond: the stores do, and the same has been printed. -/
structure World.Related (base : Nat) (φ : Layout) (w w' : World) : Prop where
  output : w'.output = w.output
  store : φ.Relates (Function.Expands base) base w.store w'.store

/-- A comparison of a run with one of the expanded tree. -/
structure Comparison extends Allowance

/-- The functions of the host do not tell two runs apart that have the first frames in common. They
work on their arguments, a greater depth makes a difference only where a smaller one does not do,
and from objects with members in those frames they yield such an object. -/
structure Natives.Impartial (N : Natives) (base : Nat) : Prop where
  arguments : N.WorkOnArguments
  steady : N.Steady
  within {key : String} {objects : List Object} {depth : Nat} {w w' : World} {o : Object} :
    (∀ o ∈ objects, o.Within base) → Gives (N.call key objects depth) w o w' → o.Within base

/-- A statement that gives nothing back gives no object back. -/
lemma within_none (base : Nat) : ∀ o ∈ (none : Option Object), o.Within base := by
  simp

namespace Comparison

/-- What corresponds in the two runs. Journals are not compared. -/
def pairing (C : Comparison) : Pairing Halt World where
  states := World.Related C.base
  stops φ stop stop' := stop'.1 = stop.1 ∧ World.Related C.base φ stop.2 stop'.2
  left halt := C.left ∧ halt = .tooDeep
  right halt := C.right ∧ halt = .tooDeep

/-- An object without members or with members in common frames. -/
def Yields (C : Comparison) : Layout → Object → Object → Prop :=
  Same (Object.Within C.base)

/-- What a statement may give back. -/
def Returns (C : Comparison) : Layout → Option Object → Option Object → Prop :=
  Same fun r => ∀ o ∈ r, o.Within C.base

variable {N : Natives} {C : Comparison} {φ ψ : Layout} {α β : Type} {d d' e e' : Nat}
  {scope scope' : Scope} {Q : Layout → α → α → Prop} {x y : Run α} {p : α → Prop} {site : Site}
  {name : String}

/-! ### Steps -/

/-- Both runs stop in the same way. -/
lemma halts {halt : Halt} : C.pairing.InStep φ Q (throw halt) (throw halt) :=
  .throw fun _ _ _ hw => ⟨rfl, hw⟩

/-- Nothing follows where both runs stop. -/
lemma stopped {halt : Halt} {f g : β → Run α} :
    C.pairing.InStep φ Q (throw halt >>= f) (throw halt >>= g) :=
  .throw fun _ _ _ hw => ⟨rfl, hw⟩

lemma note {event event' : Event} :
    C.pairing.InStep φ Agree (note event) (note event') :=
  fun ψ _ _ _ hw => .ok (Le.refl ψ) ⟨rfl, trivial⟩ ⟨hw.output, hw.store⟩

lemma recording {event event' : α → Event} (h : C.pairing.InStep φ (Same p) x y) :
    C.pairing.InStep φ (Same p) (recording event x) (recording event' y) :=
  h.bindSame fun _ _ _ ha => note.bindSame fun _ _ _ _ => .same ha

lemma resolving {site' : Site} (hsite : site' = site) (h : C.pairing.InStep φ Q x y) :
    C.pairing.InStep φ Q (resolving site x) (resolving site' y) := by
  subst hsite
  refine h.mapError (fun _ => outcome_resolving) (fun _ => outcome_resolving) ?_ ?_ ?_
  · rintro _ ⟨hleft, rfl⟩
    exact ⟨hleft, rfl⟩
  · rintro _ ⟨hright, rfl⟩
    exact ⟨hright, rfl⟩
  · rintro ψ e e' w w' ⟨heq, hw⟩
    exact ⟨congrArg (Halt.at _) heq, hw⟩

/-- Both runs enter a scope. -/
lemma enter (hs : φ.Sees scope scope') :
    C.pairing.InStep φ Owns (enter scope) (enter scope') := by
  intro ψ hle w w' hw
  rw [outcome_enter, outcome_enter]
  obtain ⟨hstore, howns⟩ := hw.store.enter (hs.mono hle)
  exact .ok (ψ.le_push _) howns ⟨hw.output, hstore⟩

/-- Both runs enter a scope inside a common one. -/
lemma enterHome (hs : scope.Within C.base) :
    C.pairing.InStep φ Owns (Execution.enter scope) (Execution.enter scope) :=
  .of_states fun _ _ _ _ hw => enter (hw.store.sees_of_within hs)

/-- The second run enters a scope in which nothing is defined. -/
lemma enterSpare {f : Scope → Run α} (hs : φ.Sees scope scope')
    (hf : ∀ ψ, φ.Le ψ → ∀ inner, ψ.Sees scope inner → C.pairing.InStep ψ Q x (f inner)) :
    C.pairing.InStep φ Q x (Execution.enter scope' >>= f) := by
  refine .bindRight fun ψ hle w w' hw => .inr ?_
  obtain ⟨hstore, hsees⟩ := hw.store.enterSpare (hs.mono hle)
  have hpush := ψ.le_pushSpare w'.store.frames.size
  exact ⟨_, _, _, hpush, outcome_enter, ⟨hw.output, hstore⟩, hf _ (hle.trans hpush) _ hsees⟩

lemma addVariable {site' : Site} {origin origin' : Origin} {v : Variable} (hsite : site' = site)
    (ho : φ.Owns scope scope') (hv : v.Within C.base) :
    C.pairing.InStep φ Agree (addVariable site origin scope v)
      (addVariable site' origin' scope' v) := by
  refine resolving hsite fun ψ hle w w' hw => ?_
  rw [outcome_newVariable, outcome_newVariable, hw.store.variableConflict? (ho.mono hle)]
  cases w.store.variableConflict? scope v.name with
  | none =>
    exact .ok (Le.refl ψ) ⟨rfl, trivial⟩ ⟨hw.output, hw.store.addVariable (ho.mono hle) hv⟩
  | some e => exact .error (Le.refl ψ) ⟨rfl, hw⟩

lemma addFunction {site' : Site} {g g' : Function} (hsite : site' = site)
    (ho : φ.Owns scope scope') (hg : g.Expands C.base g') :
    C.pairing.InStep φ Agree (addFunction site scope g)
      (addFunction site' scope' g') := by
  refine resolving hsite fun ψ hle w w' hw => ?_
  have hkey := hg.key
  simp only [Function.key, Prod.mk.injEq] at hkey
  rw [outcome_newFunction, outcome_newFunction, hkey.1, hkey.2,
    hw.store.functionConflict? Function.Expands.key (ho.mono hle)]
  cases w.store.functionConflict? scope g.name g.arity with
  | none =>
    exact .ok (Le.refl ψ) ⟨rfl, trivial⟩ ⟨hw.output, hw.store.addFunction (ho.mono hle) hg⟩
  | some e => exact .error (Le.refl ψ) ⟨rfl, hw⟩

lemma consultVariable {find find' : Store → Except NameError (VariableRef × Variable)}
    (h : ∀ ψ, φ.Le ψ → ∀ s s', ψ.Relates (Function.Expands C.base) C.base s s' →
      Layout.Variables C.base ψ (find s) (find' s')) :
    C.pairing.InStep φ (Layout.Finds C.base) (consult find) (consult find') := by
  intro ψ hle w w' hw
  rw [outcome_consult, outcome_consult]
  have hfind := h ψ hle _ _ hw.store
  generalize find w.store = r at hfind ⊢
  generalize find' w'.store = r' at hfind ⊢
  cases hfind with
  | found hfound => exact .ok (Le.refl ψ) hfound hw
  | missing e => exact .error (Le.refl ψ) ⟨rfl, hw⟩

lemma consultFunction {find find' : Store → Except NameError (FunctionRef × Function)}
    (h : ∀ ψ, φ.Le ψ → ∀ s s', ψ.Relates (Function.Expands C.base) C.base s s' →
      Layout.Functions (Function.Expands C.base) (find s) (find' s')) :
    C.pairing.InStep φ (fun _ found found' => found.2.Expands C.base found'.2) (consult find)
      (consult find') := by
  intro ψ hle w w' hw
  rw [outcome_consult, outcome_consult]
  have hfind := h ψ hle _ _ hw.store
  generalize find w.store = r at hfind ⊢
  generalize find' w'.store = r' at hfind ⊢
  cases hfind with
  | found hg => exact .ok (Le.refl ψ) hg hw
  | missing e => exact .error (Le.refl ψ) ⟨rfl, hw⟩

/-- A variable is looked up by its name. -/
lemma named (hs : φ.Sees scope scope') (name : String) :
    C.pairing.InStep φ (Layout.Finds C.base) (consult fun s => s.lookupVariable scope name)
      (consult fun s => s.lookupVariable scope' name) :=
  consultVariable fun _ hle _ _ h => h.lookupVariable (hs.mono hle)

/-- A variable is looked up among members. -/
lemma member {o : Object} (ho : o.Within C.base) (name : String) :
    C.pairing.InStep φ (Layout.Finds C.base) (consult fun s => s.lookupField o.members name)
      (consult fun s => s.lookupField o.members name) :=
  consultVariable fun _ _ _ _ h => h.lookupField ho

/-- The object in a variable is read. -/
lemma read {access access' : Node} {found found' : VariableRef × Variable}
    (hfound : Layout.Finds C.base φ found found') :
    C.pairing.InStep φ C.Yields
      (do
        Execution.note (.read scope access found.1)
        return found.2.value)
      (do
        Execution.note (.read scope' access' found'.1)
        return found'.2.value) := by
  rw [hfound.eq]
  exact note.bindSame fun _ _ _ _ => .same hfound.within.value

/-- An object is put into a variable. -/
lemma store {site' : Site} {access access' : Node} {found found' : VariableRef × Variable}
    {o : Object} (hsite : site' = site) (hfound : Layout.Finds C.base φ found found')
    (ho : o.Within C.base) :
    C.pairing.InStep φ Agree (store site scope access found.1 found.2 o)
      (store site' scope' access' found'.1 found'.2 o) := by
  subst hsite
  unfold Execution.store
  rw [hfound.eq]
  refine .ite (fun _ => halts) fun _ ψ hle w w' hw => ?_
  rw [outcome_modifyStore, outcome_modifyStore]
  exact .ok (Le.refl ψ) ⟨rfl, trivial⟩
    ⟨hw.output, hw.store.setVariable (hfound.mono hle) ho⟩

/-- Both runs print the same and end in the same way. -/
lemma printsOnly {x y : Run Object} {r : Except Halt Object} {printed : String}
    (hx : PrintsOnly x r printed) (hy : PrintsOnly y r printed)
    (hr : ∀ o, r = .ok o → o.Within C.base) : C.pairing.InStep φ C.Yields x y := by
  intro ψ hle w w' hw
  rw [hx w, hy w']
  have hw₁ : World.Related C.base ψ { w with output := w.output ++ printed }
      { w' with output := w'.output ++ printed } := ⟨by rw [hw.output], hw.store⟩
  cases r with
  | error halt => exact .error (Le.refl ψ) ⟨rfl, hw₁⟩
  | ok o => exact .ok (Le.refl ψ) ⟨rfl, hr o rfl⟩ hw₁

/-- A function of the host. It is nested too deeply in one run only if that has less depth left. -/
lemma callHost (hN : N.Impartial C.base) (hb : C.Budget d d') {key : String}
    {objects : List Object} (hos : ∀ o ∈ objects, o.Within C.base) :
    C.pairing.InStep φ C.Yields (N.call key objects d) (N.call key objects d') := by
  obtain ⟨r, printed, hx⟩ := hN.arguments key objects d
  obtain ⟨r', printed', hy⟩ := hN.arguments key objects d'
  have hr (o) (ho : r = .ok o) : o.Within C.base := by
    rw [ho] at hx
    exact hN.within hos (hx {})
  -- A host function that ends alike in the empty world ends alike in all, as it works on its
  -- arguments alone.
  have hsame (h : outcome (N.call key objects d) {} = outcome (N.call key objects d') {}) :
      C.pairing.InStep φ C.Yields (N.call key objects d) (N.call key objects d') := by
    obtain ⟨rfl, hprinted⟩ := hx.unique hy h
    rw [String.empty_append, String.empty_append] at hprinted
    exact printsOnly hx (hprinted ▸ hy) hr
  -- The depths can differ, and then the smaller one may be too small for the function.
  rcases Nat.lt_trichotomy d d' with hlt | rfl | hlt
  · obtain ⟨extra, rfl⟩ := Nat.exists_eq_add_of_le' hlt.le
    rcases (hN.steady key objects d extra).agrees {} with heq | ⟨hstop, -⟩
    · exact hsame heq
    · have hleft : C.left := hb.left.resolve_right (Nat.not_le.2 hlt)
      rw [hx {}] at hstop
      intro ψ _ w w' _
      rw [hx w, show r = .error .tooDeep from hstop]
      exact .left ⟨hleft, rfl⟩
  · exact hsame rfl
  · obtain ⟨extra, rfl⟩ := Nat.exists_eq_add_of_le' hlt.le
    rcases (hN.steady key objects d' extra).agrees {} with heq | ⟨hstop, -⟩
    · exact hsame heq.symm
    · have hright : C.right := hb.right.resolve_right (by omega)
      rw [hy {}] at hstop
      intro ψ _ w w' _
      rw [hy w', show r' = .error .tooDeep from hstop]
      exact .right ⟨hright, rfl⟩

lemma callNative (hN : N.Impartial C.base) (hb : C.Budget d d') {n : Native}
    {objects : List Object} (hos : ∀ o ∈ objects, o.Within C.base) :
    C.pairing.InStep φ C.Yields (callNative N n objects d) (callNative N n objects d') := by
  by_cases hn : ∃ key, n = .host key
  · obtain ⟨key, rfl⟩ := hn
    exact callHost hN hb hos
  · have hn : ∀ key, n ≠ .host key := fun key h => hn ⟨key, h⟩
    obtain ⟨r, printed, hprints, hr⟩ := exists_printsOnly N hn objects d
    refine printsOnly hprints ?_ fun o ho => ?_
    · rwa [callNative_depth hn]
    · rw [hr o ho]
      exact Object.within_of _

lemma bindParameters {m m' : Method} (hm : m.Expands m') (ho : φ.Owns scope scope')
    {position : Nat} {objects : List (String × Object)}
    (hos : ∀ o ∈ objects, o.2.Within C.base) :
    C.pairing.InStep φ Agree (bindParameters m scope position objects)
      (bindParameters m' scope' position objects) := by
  induction objects generalizing position with
  | nil => exact .same trivial
  | cons o rest ih =>
    rw [List.forall_mem_cons] at hos
    refine (addVariable hm.site ho ⟨Ty.within_any, hos.1⟩).bindSame fun ψ hle _ _ => ?_
    exact (ih hos.2).mono hle

lemma operateAt {site' : Site} {operator : String} {l r : Object} (hsite : site' = site) :
    C.pairing.InStep φ C.Yields (operateAt site operator l r) (operateAt site' operator l r) := by
  subst hsite
  unfold Execution.operateAt
  split
  · split
    · exact .same (Object.within_of _)
    · exact halts
  · exact halts
  · exact halts

lemma executeAll {f g : Node → Run (Option Object)} {E : Node → Node → Prop} {ns ns' : List Node}
    (hfg : ∀ n n', E n n' → C.pairing.InStep φ C.Returns (f n) (g n'))
    (h : List.Forall₂ E ns ns') :
    C.pairing.InStep φ C.Returns (executeAll f ns) (executeAll g ns') := by
  induction h with
  | nil => exact .same (within_none C.base)
  | cons hn _ ih =>
    refine (hfg _ _ hn).bindSame fun ψ hle r hr => ?_
    cases r with
    | some o => exact .same hr
    | none => exact ih.mono hle

lemma repeatWhile {c c' : Run Bool} {body body' : Run (Option Object)}
    (hc : C.pairing.InStep φ Agree c c')
    (hbody : C.pairing.InStep φ C.Returns body body') (fuel : Nat) :
    C.pairing.InStep φ C.Returns (repeatWhile c body fuel) (repeatWhile c' body' fuel) := by
  induction fuel with
  | zero => exact halts
  | succ fuel ih =>
    refine hc.bindSame fun ψ hle holds _ => .ite (fun _ => ?_) fun _ =>
      .same (within_none C.base)
    refine (hbody.mono hle).bindSame fun χ hle' r hr => ?_
    cases r with
    | some o => exact .same hr
    | none => exact ih.mono (hle.trans hle')

lemma deep (C : Comparison) : C.pairing.Deep C.toAllowance .tooDeep where
  left h := ⟨h, rfl⟩
  right h := ⟨h, rfl⟩
  stops _ _ _ hw := ⟨rfl, hw⟩

/-- The second run tests TRUE. -/
lemma truth {fuel : Nat} {m : Mark} {f : Bool → Run α} (h : C.pairing.InStep φ Q x (f true)) :
    C.pairing.InStep φ Q x (condition N fuel scope' (.truth m) (d + 2) >>= f) := by
  refine .bindRight fun ψ hle w w' hw => .inr ?_
  let event : Event := .evaluated (.truth m) (.of (.boolean true))
  refine ⟨ψ, true, w'.after event w'.store, Le.refl ψ, ?_, ⟨hw.output, hw.store⟩, h.mono hle⟩
  rw [condition, evaluate.eq_def]
  rfl

end Comparison

/-! ### Rules -/

/-- The rules of the two runs are in step at their depths. -/
structure InStepAt (N : Natives) (C : Comparison) (fuel d d' : Nat) : Prop where
  evaluate {φ : Layout} {scope scope' : Scope} {n n' : Node} (hs : φ.Sees scope scope')
    (h : Node.Expands false n n') :
    C.pairing.InStep φ C.Yields (evaluate N fuel scope n d) (evaluate N fuel scope' n' d')
  operation {φ : Layout} {scope scope' : Scope} {m m' : Mark} {operator : String}
    {l l' r r' : Node} (hs : φ.Sees scope scope') (hm : m'.position = m.position)
    (hl : Node.Expands false l l') (hr : Node.Expands false r r') :
    C.pairing.InStep φ C.Yields (operation N fuel scope m operator l r d)
      (operation N fuel scope' m' operator l' r' d')
  condition {φ : Layout} {scope scope' : Scope} {n n' : Node} (hs : φ.Sees scope scope')
    (h : Node.Expands false n n') :
    C.pairing.InStep φ Agree (condition N fuel scope n d) (condition N fuel scope' n' d')
  arguments {φ : Layout} {scope scope' : Scope} {ns ns' : List Node} (hs : φ.Sees scope scope')
    (h : List.Forall₂ (Node.Expands false) ns ns') :
    C.pairing.InStep φ (Same fun os => ∀ o ∈ os, o.Within C.base) (arguments N fuel scope ns d)
      (arguments N fuel scope' ns' d')
  call {φ : Layout} {scope scope' : Scope} {m m' : Mark} {r r' : Node} {name : String}
    {ns ns' : List Node} (hs : φ.Sees scope scope') (hm : m'.position = m.position)
    (hr : Node.Expands false r r') (hns : List.Forall₂ (Node.Expands false) ns ns') :
    C.pairing.InStep φ C.Yields (call N fuel scope m r name ns d)
      (call N fuel scope' m' r' name ns' d')
  invoke {φ : Layout} {g g' : Function} {objects : List Object} (hg : g.Expands C.base g')
    (hos : ∀ o ∈ objects, o.Within C.base) :
    C.pairing.InStep φ C.Yields (invoke N fuel g objects d) (invoke N fuel g' objects d')
  block {φ : Layout} {scope scope' : Scope} {body body' : List Node} (ho : φ.Owns scope scope')
    (h : List.Forall₂ (Node.Expands true) body body') :
    C.pairing.InStep φ C.Returns (block N fuel scope body d) (block N fuel scope' body' d')
  execute {φ : Layout} {scope scope' : Scope} {n n' : Node} (ho : φ.Owns scope scope')
    (h : Node.Expands true n n') :
    C.pairing.InStep φ C.Returns (execute N fuel scope n d) (execute N fuel scope' n' d')
  assign {φ : Layout} {scope scope' : Scope} {m m' : Mark} {r r' v v' : Node}
    (hs : φ.Sees scope scope') (hm : m'.position = m.position) (hr : Node.Expands false r r')
    (hv : Node.Expands false v v') :
    C.pairing.InStep φ Agree (assign N fuel scope m r v d)
      (assign N fuel scope' m' r' v' d')
  forLoop {φ : Layout} {scope scope' : Scope} {m m' : Mark} {f f' c c' l l' : Node}
    {body body' : List Node} (hs : φ.Sees scope scope') (hm : m'.position = m.position)
    (hf : Node.Expands true f f') (hc : Node.Expands false c c') (hl : Node.Expands true l l')
    (hb : List.Forall₂ (Node.Expands true) body body') :
    C.pairing.InStep φ C.Returns (forLoop N fuel scope m f c l body d)
      (forLoop N fuel scope' m' f' c' l' body' d')

namespace InStepAt

variable {N : Natives} {C : Comparison} {φ : Layout} {fuel d d' : Nat} {scope scope' : Scope}
  {m m' : Mark} {name : String} {n n' : Node} (ih : InStepAt N C fuel d d')

include ih

lemma evaluate_succ (hs : φ.Sees scope scope') (h : Node.Expands false n n') :
    C.pairing.InStep φ C.Yields (Execution.evaluate N fuel scope n (d + 1))
      (Execution.evaluate N fuel scope' n' (d' + 1)) := by
  rw [evaluate.eq_def, evaluate.eq_def N fuel scope' n']
  refine C.recording ?_
  have hsite := h.site
  have hkind := h.kindName
  cases h with
  | @literal _ _ _ value _ _ =>
    cases hvalue : value.value? with
    | none =>
      dsimp only
      rw [hvalue]
      exact C.halts
    | some v =>
      dsimp only
      rw [hvalue]
      exact .same (Object.within_of v)
  | group _ he => exact ih.evaluate hs he
  | binary hm hl hr => exact ih.operation hs hm hl hr
  | access hm hr =>
    have howner := ih.evaluate hs hr
    cases hr with
    | absent => exact (C.resolving hsite (C.named hs _)).bind fun _ _ _ _ => C.read
    | _ =>
      refine howner.bindSame fun _ _ o ho => ?_
      exact (C.resolving hsite (C.member ho _)).bind fun _ _ _ _ => C.read
  | call hm hr hes => exact ih.call hs hm hr hes
  | _ =>
    dsimp only
    rw [hsite, hkind]
    exact C.halts

lemma operation_succ {operator : String} {l l' r r' : Node} (hs : φ.Sees scope scope')
    (hm : m'.position = m.position) (hl : Node.Expands false l l')
    (hr : Node.Expands false r r') :
    C.pairing.InStep φ C.Yields (Execution.operation N fuel scope m operator l r (d + 1))
      (Execution.operation N fuel scope' m' operator l' r' (d' + 1)) := by
  have hright := ih.condition hs hr
  rw [Execution.operation, Execution.operation]
  refine .ite (fun _ => ?_) fun _ => .ite (fun _ => ?_) fun _ => ?_
  · refine (ih.condition hs hl).bindSame fun ψ hle _ _ => .ite (fun _ => ?_) fun _ => ?_
    · exact (hright.mono hle).map _ fun _ _ => Object.within_of _
    · exact .same (Object.within_of _)
  · refine (ih.condition hs hl).bindSame fun ψ hle _ _ => .ite (fun _ => ?_) fun _ => ?_
    · exact .same (Object.within_of _)
    · exact (hright.mono hle).map _ fun _ _ => Object.within_of _
  · refine (ih.evaluate hs hl).bindSame fun ψ hle _ _ => ?_
    refine (ih.evaluate (hs.mono hle) hr).bindSame fun _ _ _ _ => C.operateAt ?_
    rw [hm]

lemma condition_succ (hs : φ.Sees scope scope') (h : Node.Expands false n n') :
    C.pairing.InStep φ Agree (Execution.condition N fuel scope n (d + 1))
      (Execution.condition N fuel scope' n' (d' + 1)) := by
  rw [Execution.condition, Execution.condition, h.site]
  refine (ih.evaluate hs h).bindSame fun _ _ o _ => ?_
  split
  · exact .same trivial
  · exact C.halts

lemma call_succ {r r' : Node} {ns ns' : List Node} (hs : φ.Sees scope scope')
    (hm : m'.position = m.position) (hr : Node.Expands false r r')
    (hns : List.Forall₂ (Node.Expands false) ns ns') :
    C.pairing.InStep φ C.Yields (Execution.call N fuel scope m r name ns (d + 1))
      (Execution.call N fuel scope' m' r' name ns' (d' + 1)) := by
  have howner := ih.evaluate hs hr
  have hsite : (⟨some .call, m'.position⟩ : Site) = ⟨some .call, m.position⟩ := by rw [hm]
  rw [call.eq_def, call.eq_def N fuel scope' m']
  refine (ih.arguments hs hns).bindSame fun ψ hle objects hos => ?_
  cases hr with
  | absent =>
    refine .bind (C.resolving hsite (C.consultFunction fun χ hle' _ _ h => ?_))
      fun χ _ _ _ hg => C.note.bindSame fun _ _ _ _ => ih.invoke hg hos
    exact h.lookupFunction Function.Expands.key ((hs.mono hle).mono hle')
  | _ =>
    refine (howner.mono hle).bindSame fun χ _ o ho => C.resolving hsite ?_
    refine .bind (C.consultFunction fun _ _ _ _ h => h.lookupMethod Function.Expands.key ho)
      fun _ _ _ _ hg => ih.invoke hg (List.forall_mem_cons.2 ⟨ho, hos⟩)

lemma invoke_succ (hN : N.Impartial C.base) (hb : C.Budget d d') {g g' : Function}
    {objects : List Object} (hg : g.Expands C.base g') (hos : ∀ o ∈ objects, o.Within C.base) :
    C.pairing.InStep φ C.Yields (Execution.invoke N fuel g objects (d + 2))
      (Execution.invoke N fuel g' objects (d' + 2)) := by
  rw [Execution.invoke, Execution.invoke]
  have hbody := hg.body
  generalize g.body = body at hbody ⊢
  generalize g'.body = body' at hbody ⊢
  cases hbody with
  | native n => exact C.callNative hN hb hos
  | @method m m' home hm hhome =>
    refine C.recording ?_
    dsimp only
    rw [hm.site, hm.name, hm.parameters]
    refine .ite (fun _ => C.stopped) fun _ => ?_
    refine (C.enterHome hhome).bind fun ψ hle scope scope' ho => ?_
    refine (C.bindParameters hm ho fun o hmem => hos _ (List.of_mem_zip hmem).2).bindSame
      fun χ hle' _ _ => ?_
    refine (ih.block (ho.mono hle') hm.body).map _ fun r hr => ?_
    cases r with
    | none => exact Object.within_of _
    | some o => exact hr o rfl

/-- A block in a scope of its own. -/
lemma inner {body body' : List Node} (hs : φ.Sees scope scope')
    (h : List.Forall₂ (Node.Expands true) body body') :
    C.pairing.InStep φ C.Returns
      (do Execution.block N fuel (← Execution.enter scope) body d)
      (do Execution.block N fuel (← Execution.enter scope') body' d') :=
  (C.enter hs).bind fun _ _ _ _ ho => ih.block ho h

lemma execute_succ (ho : φ.Owns scope scope') (h : Node.Expands false n n') :
    C.pairing.InStep φ C.Returns (Execution.execute N fuel scope n (d + 1))
      (Execution.execute N fuel scope' n' (d' + 1)) := by
  have hs := ho.sees
  have hsite := h.site
  have hkind := h.kindName
  rw [execute.eq_def, execute.eq_def N fuel scope']
  cases h with
  | perform hm he =>
    exact (ih.evaluate hs he).map _ fun _ _ => within_none C.base
  | declare hm hv =>
    dsimp only
    rw [hv.isPresent]
    refine .ite (fun _ => ?_) fun _ => ?_
    · refine (ih.evaluate hs hv).bindSame fun ψ hle o hwithin => ?_
      refine (C.addVariable hsite (ho.mono hle) ⟨Ty.within_any, hwithin⟩).map _ fun _ _ => ?_
      exact within_none C.base
    · refine (C.addVariable hsite ho ⟨Ty.within_any, Object.within_of _⟩).map _ fun _ _ => ?_
      exact within_none C.base
  | assign hm hr hv =>
    exact (ih.assign hs hm hr hv).map _ fun _ _ => within_none C.base
  | branch hm hc hb hother =>
    refine (ih.condition hs hc).bindSame fun ψ hle holds _ => ?_
    cases holds with
    | true => exact ih.inner (hs.mono hle) hb
    | false => exact ih.inner (hs.mono hle) hother
  | forLoop hm hf hc hl hb =>
    exact ih.forLoop hs hm hf hc hl hb
  | whileLoop hm hc hb =>
    refine (C.enter hs).bind fun ψ hle loop loop' hloop => ?_
    exact C.repeatWhile (ih.condition hloop.sees hc) (ih.inner hloop.sees hb) fuel
  | giveBack hm hv =>
    refine (ih.evaluate hs hv).map _ fun o ho => ?_
    rintro _ ⟨⟩
    exact ho
  | _ =>
    dsimp only
    rw [hsite, hkind]
    exact C.halts

lemma assign_succ {r r' v v' : Node} (hs : φ.Sees scope scope') (hm : m'.position = m.position)
    (hr : Node.Expands false r r') (hv : Node.Expands false v v') :
    C.pairing.InStep φ Agree (Execution.assign N fuel scope m r v (d + 1))
      (Execution.assign N fuel scope' m' r' v' (d' + 1)) := by
  have hsite : (⟨some .assign, m'.position⟩ : Site) = ⟨some .assign, m.position⟩ := by rw [hm]
  have htarget := hr.site
  rw [assign.eq_def, assign.eq_def N fuel scope' m']
  cases hr with
  | access _ howner =>
    refine (ih.evaluate hs hv).bindSame fun ψ hle o ho => ?_
    have hobject := ih.evaluate (hs.mono hle) howner
    refine .bind (Q := Layout.Finds C.base) (C.resolving htarget ?_) fun _ _ _ _ hfound =>
      C.store hsite hfound ho
    cases howner with
    | absent => exact C.named (hs.mono hle) _
    | _ => exact hobject.bindSame fun _ _ object hobject => C.member hobject _
  | _ =>
    dsimp only
    rw [hsite]
    exact C.halts

/-- A clause of a loop is executed if there is one, and then the rest. -/
lemma clause {α : Type} {Q : Layout → α → α → Prop} {x y : Run α} (ho : φ.Owns scope scope')
    (h : Node.Expands true n n') (hxy : C.pairing.InStep φ Q x y) :
    C.pairing.InStep φ Q
      (if n.isPresent = true then (do
        let _ ← Execution.execute N fuel scope n d
        x) else x)
      (if n.isPresent = true then (do
        let _ ← Execution.execute N fuel scope' n' d'
        y) else y) :=
  .ite (fun _ => (ih.execute ho h).bindSame fun _ hle _ _ => hxy.mono hle) fun _ => hxy

lemma forLoop_succ {f f' c c' l l' : Node} {body body' : List Node} (hs : φ.Sees scope scope')
    (hm : m'.position = m.position) (hf : Node.Expands true f f') (hc : Node.Expands false c c')
    (hl : Node.Expands true l l') (hb : List.Forall₂ (Node.Expands true) body body') :
    C.pairing.InStep φ C.Returns (Execution.forLoop N fuel scope m f c l body (d + 1))
      (Execution.forLoop N fuel scope' m' f' c' l' body' (d' + 1)) := by
  rw [Execution.forLoop, Execution.forLoop, hf.isPresent, hc.isPresent, hl.isPresent, hm]
  refine (C.enter hs).bind fun ψ hle loop loop' hloop => ih.clause hloop hf ?_
  refine .ite (fun _ => C.stopped) fun _ => ?_
  refine C.repeatWhile (ih.condition hloop.sees hc) ?_ fuel
  refine (C.enter hloop.sees).bind fun χ hle' inner inner' hinner => ?_
  refine (ih.block hinner hb).bindSame fun ω hle'' r hr => ?_
  cases r with
  | some o => exact .same hr
  | none => exact ih.clause ((hloop.mono hle').mono hle'') hl (.same (within_none C.base))

end InStepAt

/-! ### Expanded loops -/

section

variable {N : Natives} {C : Comparison} {φ : Layout} {fuel d d' : Nat}
  {scope scope' loop loop' : Scope} {f f' c c' l l' n n' : Node} {body body' : List Node}
  {k : Node.Scaffold}

/-- An increment does not define anything, so it may be executed in a scope that stays empty. -/
lemma inStep_increment (hall : ∀ e < d, ∀ e', C.Budget e e' → InStepAt N C fuel e e')
    (hb : C.Budget d d') (hs : φ.Sees scope scope') (hl : Node.Expands true l l')
    (hlast : l.Increments) (hpresent : l.isPresent = true) :
    C.pairing.InStep φ (Same (· = none)) (execute N fuel scope l d)
      (execute N fuel scope' l' d') := by
  refine C.deep.of_succ (f := execute N fuel scope l) (g := execute N fuel scope' l') hb rfl rfl
    fun e e' he he' => ?_
  subst he he'
  cases hl with
  | absent => cases hpresent
  | assign hm hr hv =>
    have ih := hall e (Nat.lt_succ_self e) e' hb.pred
    exact (ih.assign hs hm hr hv).map _ fun _ _ => rfl
  | _ => cases hlast

/-- A round of a loop and of its expansion. In the expansion the body is a block inside the round,
and the increment comes after it. What follows the body of the loop is `rest`. -/
lemma inStep_round (hall : ∀ e < d + 1, ∀ e', C.Budget e e' → InStepAt N C fuel e e')
    (hbudget : C.Budget (d + 2) (d' + 3)) (hs : φ.Sees loop loop') (hl : Node.Expands true l l')
    (hlast : l.Increments) (hb : List.Forall₂ (Node.Expands true) body body')
    {rest : Option Object → Run (Option Object)} (hsome : ∀ o, rest (some o) = pure (some o))
    (hnone : rest none = if l.isPresent = true then (do
      let _ ← execute N fuel loop l d
      pure none) else pure none) :
    C.pairing.InStep φ C.Returns
      (do rest (← block N fuel (← enter loop) body d))
      (do
        block N fuel (← enter loop')
          (.branch k.inner (.truth k.innerTest) body' [] :: [l'].filter Node.isPresent) d') := by
  -- The scope of a round of the expansion has no counterpart: only the block inside it defines.
  refine C.enterSpare hs fun ψ hle round hround => ?_
  by_cases hdeep : d' < 4
  · have hright : C.right := hbudget.right.resolve_right (by omega)
    have hstop : block N fuel round
        (.branch k.inner (.truth k.innerTest) body' [] :: [l'].filter Node.isPresent) d'
          = tooDeep := by
      interval_cases d' <;> rfl
    rw [hstop]
    exact .throwRight ⟨hright, rfl⟩
  obtain ⟨e, rfl⟩ := Nat.exists_eq_add_of_le' (Nat.not_lt.1 hdeep)
  have ih := hall d (Nat.lt_succ_self d) (e + 2) (hbudget.shift (by omega) (by omega))
  have hbody : C.pairing.InStep ψ C.Returns (do block N fuel (← enter loop) body d)
      (execute N fuel round (.branch k.inner (.truth k.innerTest) body' []) (e + 3)) := by
    rw [execute.eq_def]
    exact C.truth (ih.inner hround hb)
  rw [block, executeAll, ← bind_assoc]
  refine hbody.bindSame fun χ hle' r hr => ?_
  -- A body that gives something back ends the round on both sides, before any increment.
  cases r with
  | some o =>
    rw [hsome]
    exact .same hr
  | none =>
    rw [hnone]
    by_cases hpresent : l.isPresent = true
    · rw [if_pos hpresent, List.filter_cons_of_pos (hl.isPresent.trans hpresent)]
      have hincrement : C.Budget d (e + 3) := hbudget.shift (by omega) (by omega)
      refine (inStep_increment (fun e he => hall e (Nat.lt_succ_of_lt he)) hincrement
        (hround.mono hle') hl hlast hpresent).bindSame fun _ _ r hr => ?_
      rw [hr]
      exact .same (within_none C.base)
    · rw [if_neg hpresent, List.filter_cons_of_neg (hl.isPresent ▸ hpresent)]
      exact .same (within_none C.base)

/-- The rounds of a loop and the WHILE loop of its expansion, whose scope stays empty. -/
lemma inStep_while (hall : ∀ e < d + 1, ∀ e', C.Budget e e' → InStepAt N C fuel e e')
    (hbudget : C.Budget (d + 2) (d' + 3)) (hs : φ.Sees loop scope')
    (hc : Node.Expands false c c') (hl : Node.Expands true l l') (hlast : l.Increments)
    (hb : List.Forall₂ (Node.Expands true) body body') {rest : Option Object → Run (Option Object)}
    (hsome : ∀ o, rest (some o) = pure (some o))
    (hnone : rest none = if l.isPresent = true then (do
      let _ ← execute N fuel loop l d
      pure none) else pure none) :
    C.pairing.InStep φ C.Returns
      (repeatWhile (condition N fuel loop c d)
        (do rest (← block N fuel (← enter loop) body d)) fuel)
      (execute N fuel scope'
        (.whileLoop k.loop c'
          (.branch k.inner (.truth k.innerTest) body' [] :: [l'].filter Node.isPresent))
        (d' + 1)) := by
  rw [execute.eq_def N fuel scope']
  refine C.enterSpare hs fun ψ hle spare hspare => ?_
  have ih := hall d (Nat.lt_succ_self d) d' (hbudget.shift (by omega) (by omega))
  refine C.repeatWhile (ih.condition hspare hc) ?_ fuel
  exact inStep_round hall hbudget hspare hl hlast hb hsome hnone

/-- An initializer gives nothing back. -/
lemma eq_none_of_initializes (hinitial : n.Initializes) {w w' : World} {r : Option Object}
    (h : Gives (execute N fuel scope n d) w r w') : r = none := by
  cases d with
  | zero => exact absurd h not_gives_throw
  | succ d =>
    cases n with
    | absent => exact absurd h not_gives_throw
    | declare m name typeName value =>
      rw [execute.eq_def] at h
      dsimp only at h
      split at h
      · obtain ⟨_, _, _, h⟩ := gives_bind.1 h
        obtain ⟨_, _, _, h⟩ := gives_bind.1 h
        exact (gives_pure.1 h).1
      · obtain ⟨_, _, _, h⟩ := gives_bind.1 h
        obtain ⟨_, _, _, h⟩ := gives_bind.1 h
        exact (gives_pure.1 h).1
    | assign m receiver value =>
      rw [execute.eq_def] at h
      obtain ⟨_, _, _, h⟩ := gives_bind.1 h
      exact (gives_pure.1 h).1
    | _ => cases hinitial

/-- A loop and its expansion. The scope of the loop corresponds to that of the outer IF statement,
and the scope of the WHILE loop stays empty. -/
lemma inStep_expansion (hall : ∀ e < d, ∀ e', C.Budget e e' → InStepAt N C fuel e e')
    (hbudget : C.Budget d d') (ho : φ.Owns scope scope') (h : Node.ExpandsLoop n n') :
    C.pairing.InStep φ C.Returns (execute N fuel scope n d) (execute N fuel scope' n' d') := by
  obtain @⟨m, k, f, f', c, c', l, l', body, body', hinitial, hpresent, hlast, hf, hc, hl, hb⟩ := h
  refine C.deep.of_depth (f := execute N fuel scope (.forLoop m f c l body))
    (g := execute N fuel scope' (.expansion k f' c' l' body')) hbudget (by decide : 2 ≤ 3 ∧ 3 ≤ 10)
    (fun d hd => ?_) (fun d hd => ?_) fun hd hd' => ?_
  · interval_cases d <;> rfl
  · interval_cases d <;> rfl
  obtain ⟨e, rfl⟩ := Nat.exists_eq_add_of_le' hd
  obtain ⟨e', rfl⟩ := Nat.exists_eq_add_of_le' hd'
  -- The test of the outer IF statement is TRUE, so its body is entered like the loop.
  rw [execute.eq_def, execute.eq_def N fuel scope']
  refine C.truth ?_
  dsimp only
  rw [forLoop]
  refine (C.enter ho.sees).bind fun ψ hle loop inner hloop => ?_
  rw [block, hpresent]
  have hwhile := @inStep_while N C ψ fuel e e' inner loop c c' l l' body body' k
    (fun e he => hall e (Nat.lt_succ_of_lt he)) hbudget hloop.sees hc hl hlast hb
  -- The first clause stands before the WHILE loop. It gives nothing back, so the list goes on.
  by_cases hfirst : f.isPresent = true
  · rw [if_pos hfirst, List.filter_cons_of_pos (hf.isPresent.trans hfirst)]
    have ih := hall e (by omega) (e' + 1) (hbudget.shift (by omega) (by omega))
    refine ((ih.execute hloop hf).and fun _ _ _ => eq_none_of_initializes hinitial).bindSame
      fun χ hle' r hr => ?_
    rw [hr.2]
    refine .mono ?_ hle'
    change C.pairing.InStep ψ C.Returns _ (executeAll _ [_])
    rw [executeAll_singleton]
    exact hwhile (fun _ => rfl) rfl
  · rw [if_neg hfirst, List.filter_cons_of_neg (hf.isPresent ▸ hfirst)]
    change C.pairing.InStep ψ C.Returns _ (executeAll _ [_])
    rw [executeAll_singleton]
    exact hwhile (fun _ => rfl) rfl

end

/-- The rules of the two runs are in step at all depths that the comparison allows. -/
theorem inStepAt {N : Natives} {C : Comparison} (hN : N.Impartial C.base) (fuel : Nat)
    {d d' : Nat} (hb : C.Budget d d') : InStepAt N C fuel d d' := by
  induction d using Nat.strongRecOn generalizing d' with
  | ind d ih =>
    have hall : ∀ e < d, ∀ e', C.Budget e e' → InStepAt N C fuel e e' := fun e he e' => ih e he
    refine {
      evaluate := fun hs h =>
        C.deep.of_below hb hall rfl rfl fun e e' hat => hat.evaluate_succ hs h
      operation := fun hs hm hl hr =>
        C.deep.of_below hb hall rfl rfl fun e e' hat => hat.operation_succ hs hm hl hr
      condition := fun hs h =>
        C.deep.of_below hb hall rfl rfl fun e e' hat => hat.condition_succ hs h
      arguments := fun hs h => C.deep.of_below hb hall rfl rfl fun e e' hat => ?_
      call := fun hs hm hr hns =>
        C.deep.of_below hb hall rfl rfl fun e e' hat => hat.call_succ hs hm hr hns
      invoke := fun {φ g g' objects} hg hos => ?_
      block := fun ho h => C.deep.of_below hb hall rfl rfl fun e e' hat => ?_
      execute := fun ho h => ?_
      assign := fun hs hm hr hv =>
        C.deep.of_below hb hall rfl rfl fun e e' hat => hat.assign_succ hs hm hr hv
      forLoop := fun hs hm hf hc hl hbody =>
        C.deep.of_below hb hall rfl rfl fun e e' hat => hat.forLoop_succ hs hm hf hc hl hbody }
    · rw [arguments, arguments]
      exact .mapM (fun n n' hn => hat.evaluate hs hn) h
    · -- An invocation takes two units of depth.
      refine C.deep.of_depth (f := invoke N fuel g objects) (g := invoke N fuel g' objects) hb
        (by decide : 2 ≤ 2 ∧ 2 ≤ 10) (fun d hd => ?_) (fun d hd => ?_) fun hd hd' => ?_
      · interval_cases d <;> rfl
      · interval_cases d <;> rfl
      obtain ⟨e, rfl⟩ := Nat.exists_eq_add_of_le' hd
      obtain ⟨e', rfl⟩ := Nat.exists_eq_add_of_le' hd'
      have hb' : C.Budget e e' := hb.shift (by omega) (by omega)
      exact (hall e (by omega) e' hb').invoke_succ hN hb' hg hos
    · rw [block, block]
      exact C.executeAll (fun n n' hn => hat.execute ho hn) h
    · -- A statement is kept, with expansions in its parts, or it is a loop that is expanded itself.
      rcases h.kept_or_loop with h | h
      · exact C.deep.of_below hb hall rfl rfl fun e e' hat => hat.execute_succ ho h
      · exact inStep_expansion hall hb ho h

/-! ### Programs -/

section

variable {N : Natives} {C : Comparison} {φ : Layout} {fuel d d' : Nat} {globals : Scope}

lemma inStep_bindField (hN : N.Impartial C.base) (hb : C.Budget d d')
    (ho : φ.Owns globals globals) {f f' : Field} (hf : f.Expands f') :
    C.pairing.InStep φ Agree (bindField N fuel globals f d)
      (bindField N fuel globals f' d') := by
  refine C.deep.of_succ (f := bindField N fuel globals f) (g := bindField N fuel globals f') hb
    rfl rfl fun e e' he he' => ?_
  subst he he'
  have hat := inStepAt hN fuel hb.pred
  rw [bindField, bindField, hf.value.isPresent, hf.name, hf.constant]
  refine .ite (fun _ => ?_) fun _ => ?_
  · refine (hat.evaluate ho.sees hf.value).bindSame fun ψ hle o hwithin => ?_
    exact C.addVariable hf.site (ho.mono hle) ⟨Ty.within_any, hwithin⟩
  · exact C.addVariable hf.site ho ⟨Ty.within_any, Object.within_of _⟩

lemma inStep_findMain (hs : φ.Sees globals globals) (site : Site) :
    C.pairing.InStep φ (fun _ => Function.Expands C.base) (findMain globals site)
      (findMain globals site) := by
  intro ψ hle w w' hw
  have hfind : Layout.Functions (Function.Expands C.base)
      (w.store.lookupFunction globals "main" 0) (w'.store.lookupFunction globals "main" 0) :=
    hw.store.lookupFunction Function.Expands.key (hs.mono hle)
  rw [outcome_findMain, outcome_findMain]
  generalize w.store.lookupFunction globals "main" 0 = r at hfind ⊢
  generalize w'.store.lookupFunction globals "main" 0 = r' at hfind ⊢
  cases hfind with
  | found hg => exact .ok (Le.refl ψ) hg hw
  | missing e => exact .error (Le.refl ψ) ⟨rfl, hw⟩

/-- A program and one with loops expanded, in a common scope. -/
theorem inStep_program (hN : N.Impartial C.base) (hb : C.Budget d d')
    (hglobals : globals.Within C.base) {p p' : Program} (hp : p.Expands p') :
    C.pairing.InStep φ C.Yields (program N fuel d globals p) (program N fuel d' globals p') := by
  refine .of_states fun ψ _ _ _ hw => ?_
  have ho := hw.store.owns_of_within hglobals
  unfold program
  rw [hp.site]
  refine (Pairing.InStep.forM (fun f f' hf => inStep_bindField hN hb ho hf) hp.fields).bindSame
    fun χ hle _ _ => ?_
  refine (Pairing.InStep.forM (fun m m' hm => ?_) hp.methods).bindSame fun ω hle' _ _ => ?_
  · refine C.addFunction hm.site (ho.mono hle) ⟨?_, .method hm hglobals⟩
    rw [methodFunction, methodFunction, hm.name, hm.parameters]
  · refine (inStep_findMain ((ho.sees.mono hle).mono hle') p.site).bind fun _ _ _ _ hg => ?_
    exact (inStepAt hN fuel hb).invoke hg (List.forall_mem_nil _)

end

end Execution

end LetDef
