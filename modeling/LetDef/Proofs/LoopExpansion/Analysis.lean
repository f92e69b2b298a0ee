import LetDef.Proofs.Analysis.Footprint
import LetDef.Proofs.Analysis.Program
import LetDef.Proofs.LoopExpansion.Syntax
import LetDef.Proofs.Lockstep
import Mathlib.Tactic.IntervalCases

/-!
# Analysis of loops and of their expansions

Analysis of a tree and of the tree with loops expanded are in step: both accept, or both refuse.
What they refuse it for may differ, because a FOR loop is analysed with its increment before its
body and the expansion with the increment last. The order does not matter, since an assignment
defines nothing and a body defines only what is out of reach behind it.
-/

namespace LetDef

/-- The functions are the same, and what they refer to is below the address. -/
def Function.SameWithin (base : Nat) (g g' : Function) : Prop :=
  g' = g ∧ g.Within base

lemma Function.SameWithin.key {base : Nat} {g g' : Function} (h : g.SameWithin base g') :
    g'.key = g.key := by
  rw [h.1]

namespace Analysis

open Layout (Le Sees Owns)
open Pairing (Agree Same)

/-- A comparison of analysis with that of the expanded tree. -/
structure Comparison extends Allowance

namespace Comparison

/-- What corresponds in the two analyses. Where both refuse, the reasons are not compared, and
neither are the decorations. -/
def pairing (C : Comparison) : Pairing Halt State where
  states φ st st' := φ.Relates (Function.SameWithin C.base) C.base st.store st'.store
  stops _ _ _ := True
  left halt := C.left ∧ halt = .tooDeep ∨ ∃ kind, halt = .decorated kind
  right halt := C.right ∧ halt = .tooDeep ∨ ∃ kind, halt = .decorated kind

/-- A type without members or with members in common frames. -/
def Yields (C : Comparison) : Layout → Ty → Ty → Prop :=
  Same (Ty.Within C.base)

variable {C : Comparison} {φ ψ : Layout} {α β : Type} {d d' : Nat} {scope scope' : Scope}
  {Q : Layout → α → α → Prop} {x y : Analyze α} {site site' : Site} {name : String}

/-! ### Steps -/

lemma deep (C : Comparison) : C.pairing.Deep C.toAllowance .tooDeep where
  left h := .inl ⟨h, rfl⟩
  right h := .inl ⟨h, rfl⟩
  stops _ _ _ _ := trivial

/-- Both analyses refuse. -/
lemma refuses {halt halt' : Halt} : C.pairing.InStep φ Q (throw halt) (throw halt') :=
  .throw fun _ _ _ _ => trivial

/-- Nothing follows where both refuse. -/
lemma refused {halt halt' : Halt} {f g : β → Analyze α} :
    C.pairing.InStep φ Q (throw halt >>= f) (throw halt' >>= g) :=
  .throw fun _ _ _ _ => trivial

lemma resolving (h : C.pairing.InStep φ Q x y) :
    C.pairing.InStep φ Q (resolving site x) (resolving site' y) := by
  intro ψ hle st st' hst
  rw [outcome_resolving, outcome_resolving]
  have hxy := h hle hst
  generalize outcome x st = r at hxy ⊢
  generalize outcome y st' = r' at hxy ⊢
  cases hxy with
  | left h =>
    refine .left ?_
    rcases h with ⟨hleft, rfl⟩ | ⟨kind, rfl⟩
    · exact .inl ⟨hleft, rfl⟩
    · exact .inr ⟨kind, rfl⟩
  | right h =>
    refine .right ?_
    rcases h with ⟨hright, rfl⟩ | ⟨kind, rfl⟩
    · exact .inl ⟨hright, rfl⟩
    · exact .inr ⟨kind, rfl⟩
  | ok hle' hq hst' => exact .ok hle' hq hst'
  | error hle' _ => exact .error hle' trivial

lemma decorate {m m' : Mark} {kind kind' : Node.Kind} {deco deco' : Decoration} :
    C.pairing.InStep φ Agree (decorate m kind deco) (decorate m' kind' deco') := by
  intro ψ hle st st' hst
  rw [outcome_decorate, outcome_decorate]
  cases st.decorations.get? m with
  | some _ => exact .left (.inr ⟨kind, rfl⟩)
  | none =>
    cases st'.decorations.get? m' with
    | some _ => exact .right (.inr ⟨kind', rfl⟩)
    | none => exact .ok (Le.refl ψ) ⟨rfl, trivial⟩ hst

/-- Both analyses enter a scope. -/
lemma enter (hs : φ.Sees scope scope') :
    C.pairing.InStep φ Owns (enter scope) (enter scope') := by
  intro ψ hle st st' hst
  obtain ⟨hstore, howns⟩ := hst.enter (hs.mono hle)
  exact .ok (ψ.le_push _) howns hstore

/-- The second analysis enters a scope in which nothing is defined. -/
lemma enterSpare {f : Scope → Analyze α} (hs : φ.Sees scope scope')
    (hf : ∀ ψ, φ.Le ψ → ∀ inner, ψ.Sees scope inner → C.pairing.InStep ψ Q x (f inner)) :
    C.pairing.InStep φ Q x (Analysis.enter scope' >>= f) := by
  refine .bindRight fun ψ hle st st' hst => .inr ?_
  obtain ⟨hstore, hsees⟩ := hst.enterSpare (hs.mono hle)
  have hpush := ψ.le_pushSpare st'.store.frames.size
  exact ⟨_, _, _, hpush, outcome_modifyGet, hstore, hf _ (hle.trans hpush) _ hsees⟩

lemma addVariable {v : Variable} (ho : φ.Owns scope scope') (hv : v.Within C.base) :
    C.pairing.InStep φ Agree (addVariable site scope v) (addVariable site' scope' v) := by
  refine resolving fun ψ hle st st' hst => ?_
  rw [outcome_newVariable, outcome_newVariable, hst.variableConflict? (ho.mono hle)]
  cases st.store.variableConflict? scope v.name with
  | none => exact .ok (Le.refl ψ) ⟨rfl, trivial⟩ (hst.addVariable (ho.mono hle) hv)
  | some e => exact .error (Le.refl ψ) trivial

lemma addFunction {g : Function} (ho : φ.Owns scope scope') (hg : g.Within C.base) :
    C.pairing.InStep φ Agree (addFunction site scope g) (addFunction site' scope' g) := by
  refine resolving fun ψ hle st st' hst => ?_
  rw [outcome_newFunction, outcome_newFunction,
    hst.functionConflict? Function.SameWithin.key (ho.mono hle)]
  cases st.store.functionConflict? scope g.name g.arity with
  | none => exact .ok (Le.refl ψ) ⟨rfl, trivial⟩ (hst.addFunction (ho.mono hle) ⟨rfl, hg⟩)
  | some e => exact .error (Le.refl ψ) trivial

lemma consultVariable {find find' : Store → Except NameError (VariableRef × Variable)}
    (h : ∀ ψ, φ.Le ψ → ∀ s s', ψ.Relates (Function.SameWithin C.base) C.base s s' →
      Layout.Variables C.base ψ (find s) (find' s')) :
    C.pairing.InStep φ (Layout.Finds C.base) (consult find) (consult find') := by
  intro ψ hle st st' hst
  rw [outcome_consult, outcome_consult]
  have hfind := h ψ hle _ _ hst
  generalize find st.store = r at hfind ⊢
  generalize find' st'.store = r' at hfind ⊢
  cases hfind with
  | found hfound => exact .ok (Le.refl ψ) hfound hst
  | missing e => exact .error (Le.refl ψ) trivial

lemma consultFunction {find find' : Store → Except NameError (FunctionRef × Function)}
    (h : ∀ ψ, φ.Le ψ → ∀ s s', ψ.Relates (Function.SameWithin C.base) C.base s s' →
      Layout.Functions (Function.SameWithin C.base) (find s) (find' s')) :
    C.pairing.InStep φ (fun _ found found' => found.2.SameWithin C.base found'.2) (consult find)
      (consult find') := by
  intro ψ hle st st' hst
  rw [outcome_consult, outcome_consult]
  have hfind := h ψ hle _ _ hst
  generalize find st.store = r at hfind ⊢
  generalize find' st'.store = r' at hfind ⊢
  cases hfind with
  | found hg => exact .ok (Le.refl ψ) hg hst
  | missing e => exact .error (Le.refl ψ) trivial

lemma require {target source : Ty} :
    C.pairing.InStep φ Agree (require site target source) (require site' target source) :=
  .ite (fun _ => .same trivial) fun _ => refuses

lemma requireArguments {ts : List Ty} {ns ns' : List Node}
    (h : List.Forall₂ (Node.Expands false) ns ns') (parameters : List Ty) :
    C.pairing.InStep φ Agree (requireArguments parameters (ns.zip ts))
      (requireArguments parameters (ns'.zip ts)) := by
  induction h generalizing ts parameters with
  | nil => cases parameters <;> exact .same trivial
  | cons hn _ ih =>
    cases ts with
    | nil => cases parameters <;> exact .same trivial
    | cons t ts =>
      cases parameters with
      | nil => exact .same trivial
      | cons parameter parameters =>
        exact require.bindSame fun ψ hle _ _ => (ih parameters).mono hle

lemma requireReceiver {receiver receiver' : Node} {t : Ty} (parameters : List Ty) :
    C.pairing.InStep φ Agree (requireReceiver receiver t parameters)
      (requireReceiver receiver' t parameters) := by
  cases parameters with
  | nil => exact refuses
  | cons parameter parameters => exact require

end Comparison

/-! ### Expressions -/

/-- The rules for expressions are in step at their depths. -/
structure ExpressionsInStep (C : Comparison) (d d' : Nat) : Prop where
  expression {φ : Layout} {scope scope' : Scope} {n n' : Node} (hs : φ.Sees scope scope')
    (h : Node.Expands false n n') :
    C.pairing.InStep φ C.Yields (expression scope n d) (expression scope' n' d')
  operation {φ : Layout} {scope scope' : Scope} {m m' : Mark} {operator : String}
    {l l' r r' : Node} (hs : φ.Sees scope scope') (hl : Node.Expands false l l')
    (hr : Node.Expands false r r') :
    C.pairing.InStep φ C.Yields (operation scope m operator l r d)
      (operation scope' m' operator l' r' d')
  access {φ : Layout} {scope scope' : Scope} {m m' : Mark} {r r' : Node} {name : String}
    (hs : φ.Sees scope scope') (hr : Node.Expands false r r') :
    C.pairing.InStep φ C.Yields (access scope m r name d) (access scope' m' r' name d')
  call {φ : Layout} {scope scope' : Scope} {m m' : Mark} {r r' : Node} {name : String}
    {ns ns' : List Node} (hs : φ.Sees scope scope') (hr : Node.Expands false r r')
    (hns : List.Forall₂ (Node.Expands false) ns ns') :
    C.pairing.InStep φ C.Yields (call scope m r name ns d) (call scope' m' r' name ns' d')

/-- The variable that a name stands for, or a member of the object of an owner. -/
def find (scope : Scope) (owner : Node) (name : String) (depth : Nat) :
    Analyze (VariableRef × Variable) :=
  match owner with
  | .absent => consult fun s => s.lookupVariable scope name
  | _ => do
    let t ← expression scope owner depth
    consult fun s => s.lookupField t.members? name

lemma access_succ {scope : Scope} {m : Mark} {owner : Node} {name : String} {depth : Nat} :
    access scope m owner name (depth + 1)
      = resolving ⟨some .access, m.position⟩ (find scope owner name depth) >>= fun found =>
        decorate m .access (.variable found.1) >>= fun _ => pure found.2.type := by
  rw [access.eq_def]
  rfl

lemma operationType_within {base : Nat} {operator : String} {l r t : Ty} (hl : l.Within base)
    (h : operationType operator l r = .ok t) : t.Within base := by
  have hboolean : Ty.boolean.Within base := Ty.within_of_plain rfl
  have hstring : Ty.string.Within base := Ty.within_of_plain rfl
  unfold operationType sumType? at h
  grind

namespace ExpressionsInStep

variable {C : Comparison} {φ : Layout} {d d' : Nat} {scope scope' : Scope} {m m' : Mark}
  {name : String} {n n' : Node} (ih : ExpressionsInStep C d d')

include ih

lemma find {owner owner' : Node} (hs : φ.Sees scope scope')
    (h : Node.Expands false owner owner') :
    C.pairing.InStep φ (Layout.Finds C.base) (Analysis.find scope owner name d)
      (Analysis.find scope' owner' name d') := by
  have howner := ih.expression hs h
  unfold Analysis.find
  cases h with
  | absent => exact C.consultVariable fun _ hle _ _ h => h.lookupVariable (hs.mono hle)
  | _ => exact howner.bindSame fun _ _ t ht => C.consultVariable fun _ _ _ _ h => h.lookupField ht

lemma access_succ {r r' : Node} (hs : φ.Sees scope scope') (hr : Node.Expands false r r') :
    C.pairing.InStep φ C.Yields (Analysis.access scope m r name (d + 1))
      (Analysis.access scope' m' r' name (d' + 1)) := by
  rw [Analysis.access_succ, Analysis.access_succ]
  refine (C.resolving (ih.find hs hr)).bind fun _ _ found found' hfound => ?_
  rw [hfound.eq]
  exact C.decorate.bindSame fun _ _ _ _ => .same hfound.within.type

lemma operation_succ {operator : String} {l l' r r' : Node} (hs : φ.Sees scope scope')
    (hl : Node.Expands false l l') (hr : Node.Expands false r r') :
    C.pairing.InStep φ C.Yields (Analysis.operation scope m operator l r (d + 1))
      (Analysis.operation scope' m' operator l' r' (d' + 1)) := by
  rw [Analysis.operation, Analysis.operation]
  refine (ih.expression hs hl).bindSame fun ψ hle left hleft => ?_
  refine (ih.expression (hs.mono hle) hr).bindSame fun _ _ right _ => ?_
  cases htype : operationType operator left right with
  | error cause => exact C.refuses
  | ok t => exact C.decorate.bindSame fun _ _ _ _ => .same (operationType_within hleft htype)

lemma call_succ {r r' : Node} {ns ns' : List Node} (hs : φ.Sees scope scope')
    (hr : Node.Expands false r r') (hns : List.Forall₂ (Node.Expands false) ns ns') :
    C.pairing.InStep φ C.Yields (Analysis.call scope m r name ns (d + 1))
      (Analysis.call scope' m' r' name ns' (d' + 1)) := by
  have hreceiver := ih.expression hs hr
  rw [call.eq_def, call.eq_def scope' m', hns.length_eq]
  refine (Pairing.InStep.mapM (fun n n' hn => ih.expression hs hn) hns).bindSame
    fun ψ hle types _ => ?_
  -- Both cases end alike; they differ in where the function is looked up, the scopes of the calls
  -- or the members of the receiver's type.
  cases hr with
  | absent =>
    refine (C.resolving (C.consultFunction fun χ hle' _ _ h => ?_)).bind
      fun _ _ found found' hfound => ?_
    · exact h.lookupFunction Function.SameWithin.key ((hs.mono hle).mono hle')
    · obtain ⟨heq, hwithin⟩ := hfound
      dsimp only
      rw [heq]
      refine C.decorate.bindSame fun _ _ _ _ => ?_
      exact (C.requireArguments hns _).bindSame fun _ _ _ _ => .same hwithin.returns
  | _ =>
    refine (hreceiver.mono hle).bindSame fun _ _ t ht => ?_
    refine (C.resolving (C.consultFunction fun _ _ _ _ h => ?_)).bind
      fun _ _ found found' hfound => ?_
    · exact h.lookupMethod Function.SameWithin.key ht
    · obtain ⟨heq, hwithin⟩ := hfound
      dsimp only
      rw [heq]
      refine C.decorate.bindSame fun _ _ _ _ => (C.requireReceiver _).bindSame fun _ _ _ _ => ?_
      exact (C.requireArguments hns _).bindSame fun _ _ _ _ => .same hwithin.returns

lemma expression_succ (hs : φ.Sees scope scope') (h : Node.Expands false n n') :
    C.pairing.InStep φ C.Yields (Analysis.expression scope n (d + 1))
      (Analysis.expression scope' n' (d' + 1)) := by
  rw [expression.eq_def, expression.eq_def scope' n']
  cases h with
  | @literal _ _ _ _ sort _ =>
    dsimp only
    cases hsort : literalType? sort with
    | none => exact C.refuses
    | some t =>
      have hplain : t.Within C.base := Ty.within_of_plain (literalType?_plain hsort)
      exact C.decorate.bindSame fun _ _ _ _ => .same hplain
  | group _ he =>
    refine (ih.expression hs he).bindSame fun _ _ t ht => ?_
    exact C.decorate.bindSame fun _ _ _ _ => .same ht
  | binary _ hl hr => exact ih.operation hs hl hr
  | access _ hr => exact ih.access hs hr
  | call _ hr hes => exact ih.call hs hr hes
  | _ => exact C.refuses

end ExpressionsInStep

/-- The rules for expressions are in step at all depths that the comparison allows. -/
theorem expressionsInStep (C : Comparison) {d d' : Nat} (hb : C.Budget d d') :
    ExpressionsInStep C d d' := by
  induction d using Nat.strongRecOn generalizing d' with
  | ind d ih =>
    have hall : ∀ e < d, ∀ e', C.Budget e e' → ExpressionsInStep C e e' := fun e he e' => ih e he
    exact {
      expression := fun hs h =>
        C.deep.of_below hb hall rfl rfl fun e e' hat => hat.expression_succ hs h
      operation := fun hs hl hr =>
        C.deep.of_below hb hall rfl rfl fun e e' hat => hat.operation_succ hs hl hr
      access := fun hs hr => C.deep.of_below hb hall rfl rfl fun e e' hat => hat.access_succ hs hr
      call := fun hs hr hns =>
        C.deep.of_below hb hall rfl rfl fun e e' hat => hat.call_succ hs hr hns }

/-! ### Simple statements -/

section

variable {C : Comparison} {φ : Layout} {d d' : Nat} {scope scope' : Scope} {m m' : Mark}
  {site site' : Site} {name : String} {n n' : Node}

lemma inStep_condition (hb : C.Budget d d') (hs : φ.Sees scope scope')
    (h : Node.Expands false n n') :
    C.pairing.InStep φ Agree (condition scope n d) (condition scope' n' d') := by
  refine C.deep.of_below (f := condition scope n) (g := condition scope' n') hb
    (fun e _ e' => expressionsInStep C) rfl rfl fun e e' hat => ?_
  rw [condition, condition]
  refine (hat.expression hs h).bindSame fun _ _ t _ => ?_
  exact .ite (fun _ => .same trivial) fun _ => C.refuses

lemma inStep_perform (hb : C.Budget d d') (hs : φ.Sees scope scope')
    (h : Node.Expands false n n') :
    C.pairing.InStep φ Agree (perform scope m n d) (perform scope' m' n' d') := by
  refine C.deep.of_below (f := perform scope m n) (g := perform scope' m' n') hb
    (fun e _ e' => expressionsInStep C) rfl rfl fun e e' hat => ?_
  rw [perform.eq_def, perform.eq_def scope' m']
  refine (hat.expression hs h).bindSame fun _ _ t _ => ?_
  cases h with
  | call => exact .same trivial
  | _ => exact C.refuses

lemma inStep_optionalValue (hb : C.Budget d d') (hs : φ.Sees scope scope')
    (h : Node.Expands false n n') :
    C.pairing.InStep φ (Same fun r => ∀ p ∈ r, p.2.Within C.base) (optionalValue scope n d)
      (optionalValue scope' n' d') := by
  unfold optionalValue
  rw [h.isPresent, h.site]
  refine .ite (fun _ => ?_) fun _ => .same nofun
  refine ((expressionsInStep C hb).expression hs h).map _ fun t ht => ?_
  rintro _ ⟨⟩
  exact ht

lemma inStep_resolve (typeName : String) :
    C.pairing.InStep φ C.Yields (resolve site (Ty.ofName typeName))
      (resolve site' (Ty.ofName typeName)) := by
  refine C.resolving ?_
  cases htype : Ty.ofName typeName with
  | error e => exact C.refuses
  | ok t => exact .same (Ty.within_of_plain (ofName_plain htype))

lemma inStep_declaredType {typeName : Option String} {value : Option (Site × Ty)}
    (hvalue : ∀ p ∈ value, p.2.Within C.base) :
    C.pairing.InStep φ C.Yields (declaredType site name typeName value)
      (declaredType site' name typeName value) := by
  cases value with
  | none =>
    cases typeName with
    | none => exact C.refused
    | some typeName => exact (inStep_resolve typeName).map _ fun _ ht => ht
  | some value =>
    have hrequire {ψ : Layout} {t : Ty} (ht : t.Within C.base) :
        C.pairing.InStep ψ C.Yields (require value.1 t value.2 >>= fun _ => pure t)
          (require value.1 t value.2 >>= fun _ => pure t) :=
      C.require.bindSame fun _ _ _ _ => .same ht
    cases typeName with
    | none => exact hrequire (hvalue _ rfl)
    | some typeName => exact (inStep_resolve typeName).bindSame fun _ _ _ => hrequire

lemma inStep_defineVariable {t : Ty} {constant : Bool} (ho : φ.Owns scope scope')
    (ht : t.Within C.base) :
    C.pairing.InStep φ Agree (defineVariable site scope name t constant)
      (defineVariable site' scope' name t constant) :=
  C.addVariable ho ⟨ht, Object.within_of _⟩

lemma inStep_declare {typeName : Option String} (hb : C.Budget d d') (ho : φ.Owns scope scope')
    (h : Node.Expands false n n') :
    C.pairing.InStep φ Agree (declare scope m name typeName n d)
      (declare scope' m' name typeName n' d') := by
  refine C.deep.of_succ (f := declare scope m name typeName n)
    (g := declare scope' m' name typeName n') hb rfl rfl fun e e' he he' => ?_
  subst he he'
  rw [declare, declare]
  refine (inStep_optionalValue hb.pred ho.sees h).bindSame fun ψ hle value hvalue => ?_
  refine (inStep_declaredType hvalue).bindSame fun χ hle' t ht => ?_
  exact (inStep_defineVariable ((ho.mono hle).mono hle') ht).bindSame fun _ _ _ _ => C.decorate

/-! ### Assignments -/

/-- What an access is found to stand for is in the store. -/
lemma getVariable?_of_find {owner : Node} {found : VariableRef × Variable} {st st₁ : State}
    (h : Gives (find scope owner name d) st found st₁) :
    st₁.store.getVariable? found.1 = some found.2 := by
  unfold find at h
  split at h
  · obtain ⟨hfind, rfl⟩ := gives_consult h
    have hfield : st₁.store.lookupField (some scope) name = .ok found := hfind
    exact Store.getVariable?_of_lookupField hfield
  · obtain ⟨t, st', _, h⟩ := gives_bind.1 h
    obtain ⟨hfind, rfl⟩ := gives_consult h
    exact Store.getVariable?_of_lookupField hfind

/-- The receiver of an assignment keeps its decoration, so the variable that is checked is the one
that the receiver was found to stand for. -/
lemma assign_access {owner value : Node} :
    assign scope m (.access m' owner name) value (d + 3) = (do
      let found ← resolving ⟨some .access, m'.position⟩ (find scope owner name d)
      decorate m' .access (.variable found.1)
      let t ← expression scope value (d + 2)
      if found.2.constant then
        fail ⟨some .assign, m.position⟩ (.constantAssignment found.2.name)
      require ⟨some .assign, m.position⟩ found.2.type t) := by
  refine outcome_ext fun st => ?_
  rw [assign, expression.eq_def]
  dsimp only
  rw [Analysis.access_succ, bind_assoc, outcome_bind, outcome_bind]
  -- Both sides take the same three steps, so a step that stops stops both.
  rcases hfind : outcome (resolving ⟨some .access, m'.position⟩ (find scope owner name d)) st
    with ⟨halt | found, st₁⟩
  · rfl
  dsimp only
  rw [bind_assoc, outcome_bind, outcome_bind]
  rcases hdecorate : outcome (decorate m' .access (.variable found.1)) st₁ with ⟨halt | u, st₂⟩
  · rfl
  dsimp only
  rw [pure_bind, outcome_bind, outcome_bind]
  rcases hvalue : outcome (expression scope value (d + 2)) st₂ with ⟨halt | t, st₃⟩
  · rfl
  dsimp only
  -- The value leaves the store and the decorations made before it, so the decoration that is read
  -- back leads to the variable that was found.
  have hkept := (expressionsDecorate (d + 2)).expression scope value hvalue
  obtain ⟨hstore, hnode, _⟩ := gives_decorate hdecorate
  have hfound := getVariable?_of_find (gives_resolving.1 hfind)
  rw [← hstore, ← hkept.store] at hfound
  have haccessed : outcome (accessed? (.access m' owner name)) st₃ = (.ok (some found.2), st₃) := by
    unfold accessed?
    rw [outcome_bind, outcome_get]
    dsimp only
    rw [hkept.decorations _ _ hnode]
    exact congrArg (fun v => (Except.ok v, st₃)) hfound
  rw [outcome_bind, haccessed]

lemma inStep_assign {r r' v v' : Node} (hb : C.Budget d d') (hs : φ.Sees scope scope')
    (hr : Node.Expands false r r') (hv : Node.Expands false v v') :
    C.pairing.InStep φ Agree (assign scope m r v d) (assign scope' m' r' v' d') := by
  -- A receiver that is no access is refused after both parts.
  have hrefused {r r' : Node} (hr : Node.Expands false r r') (hnone : accessed? r = pure none)
      (hnone' : accessed? r' = pure none) :
      C.pairing.InStep φ Agree (assign scope m r v d) (assign scope' m' r' v' d') := by
    refine C.deep.of_below (f := assign scope m r v) (g := assign scope' m' r' v') hb
      (fun e _ e' => expressionsInStep C) rfl rfl fun e e' hat => ?_
    rw [assign, assign, hnone, hnone']
    refine (hat.expression hs hr).bindSame fun ψ hle _ _ => ?_
    exact (hat.expression (hs.mono hle) hv).bindSame fun _ _ _ _ => C.refuses
  have hreceiver := hr
  cases hr with
  | @access _ mr mr' owner owner' name _ howner =>
    refine C.deep.of_depth (f := assign scope m (.access mr owner name) v)
      (g := assign scope' m' (.access mr' owner' name) v') hb (by decide : 3 ≤ 3 ∧ 3 ≤ 15)
      (fun d hd => ?_) (fun d hd => ?_) fun hd hd' => ?_
    · interval_cases d <;> rfl
    · interval_cases d <;> rfl
    obtain ⟨e, rfl⟩ := Nat.exists_eq_add_of_le' hd
    obtain ⟨e', rfl⟩ := Nat.exists_eq_add_of_le' hd'
    rw [assign_access, assign_access]
    have howners : ExpressionsInStep C e e' := expressionsInStep C (hb.shift (by omega) (by omega))
    have hvalues : ExpressionsInStep C (e + 2) (e' + 2) :=
      expressionsInStep C (hb.shift (by omega) (by omega))
    refine (C.resolving (howners.find hs howner)).bind fun ψ hle found found' hfound => ?_
    refine C.decorate.bindSame fun χ hle' _ _ => ?_
    refine (hvalues.expression ((hs.mono hle).mono hle') hv).bindSame fun _ _ t _ => ?_
    rw [hfound.eq]
    exact .ite (fun _ => C.refused) fun _ => C.require
  | _ => exact hrefused hreceiver rfl rfl

/-! ### Other statements -/

/-- The rules for statements are in step at their depths. -/
structure StatementsInStep (C : Comparison) (d d' : Nat) : Prop where
  block {φ : Layout} {scope scope' : Scope} {body body' : List Node} (returns : Ty)
    (ho : φ.Owns scope scope') (h : List.Forall₂ (Node.Expands true) body body') :
    C.pairing.InStep φ Agree (block scope returns body d) (block scope' returns body' d')
  statement {φ : Layout} {scope scope' : Scope} {n n' : Node} (returns : Ty)
    (ho : φ.Owns scope scope') (h : Node.Expands true n n') :
    C.pairing.InStep φ Agree (statement scope returns n d) (statement scope' returns n' d')
  branch {φ : Layout} {scope scope' : Scope} {m m' : Mark} {c c' : Node}
    {body body' other other' : List Node} (returns : Ty) (hs : φ.Sees scope scope')
    (hc : Node.Expands false c c') (hbody : List.Forall₂ (Node.Expands true) body body')
    (hother : List.Forall₂ (Node.Expands true) other other') :
    C.pairing.InStep φ Agree (branch scope returns m c body other d)
      (branch scope' returns m' c' body' other' d')
  forLoop {φ : Layout} {scope scope' : Scope} {m m' : Mark} {f f' c c' l l' : Node}
    {body body' : List Node} (returns : Ty) (hs : φ.Sees scope scope')
    (hf : Node.Expands true f f') (hc : Node.Expands false c c') (hl : Node.Expands true l l')
    (hbody : List.Forall₂ (Node.Expands true) body body') :
    C.pairing.InStep φ Agree (forLoop scope returns m f c l body d)
      (forLoop scope' returns m' f' c' l' body' d')
  whileLoop {φ : Layout} {scope scope' : Scope} {m m' : Mark} {c c' : Node}
    {body body' : List Node} (returns : Ty) (hs : φ.Sees scope scope')
    (hc : Node.Expands false c c') (hbody : List.Forall₂ (Node.Expands true) body body') :
    C.pairing.InStep φ Agree (whileLoop scope returns m c body d)
      (whileLoop scope' returns m' c' body' d')

lemma inStep_requireBody {construct construct' : String} {body body' : List Node}
    (h : List.Forall₂ (Node.Expands true) body body') :
    C.pairing.InStep φ Agree (requireBody site construct body)
      (requireBody site' construct' body') := by
  cases h with
  | nil => exact C.refuses
  | cons => exact .same trivial

namespace StatementsInStep

variable {returns : Ty} {c c' : Node} {body body' : List Node} (hb : C.Budget d d')
  (ih : StatementsInStep C d d')

include ih

/-- A block in a scope of its own. -/
lemma inner (hs : φ.Sees scope scope') (h : List.Forall₂ (Node.Expands true) body body') :
    C.pairing.InStep φ Agree (do Analysis.block (← enter scope) returns body d)
      (do Analysis.block (← enter scope') returns body' d') :=
  (C.enter hs).bind fun _ _ _ _ ho => ih.block returns ho h

/-- A part of a loop is analysed if there is one, and then the rest. -/
lemma clause {x y : Analyze Unit} (ho : φ.Owns scope scope') (h : Node.Expands true n n')
    (hxy : C.pairing.InStep φ Agree x y) :
    C.pairing.InStep φ Agree
      (if n.isPresent = true then (do
        Analysis.statement scope returns n d
        x) else x)
      (if n.isPresent = true then (do
        Analysis.statement scope' returns n' d'
        y) else y) :=
  .ite (fun _ => (ih.statement returns ho h).bindSame fun _ hle _ _ => hxy.mono hle) fun _ => hxy

include hb

lemma statement_succ (ho : φ.Owns scope scope') (h : Node.Expands false n n') :
    C.pairing.InStep φ Agree (Analysis.statement scope returns n (d + 1))
      (Analysis.statement scope' returns n' (d' + 1)) := by
  rw [statement.eq_def, statement.eq_def scope' returns]
  cases h with
  | perform _ he => exact inStep_perform hb ho.sees he
  | declare _ hv => exact inStep_declare hb ho hv
  | assign _ hr hv => exact inStep_assign hb ho.sees hr hv
  | branch _ hc hbody hother => exact ih.branch returns ho.sees hc hbody hother
  | forLoop _ hf hc hl hbody => exact ih.forLoop returns ho.sees hf hc hl hbody
  | whileLoop _ hc hbody => exact ih.whileLoop returns ho.sees hc hbody
  | giveBack _ hv =>
    exact ((expressionsInStep C hb).expression ho.sees hv).bindSame fun _ _ _ _ => C.require
  | _ => exact C.refuses

lemma branch_succ {other other' : List Node} (hs : φ.Sees scope scope')
    (hc : Node.Expands false c c') (hbody : List.Forall₂ (Node.Expands true) body body')
    (hother : List.Forall₂ (Node.Expands true) other other') :
    C.pairing.InStep φ Agree (Analysis.branch scope returns m c body other (d + 1))
      (Analysis.branch scope' returns m' c' body' other' (d' + 1)) := by
  rw [Analysis.branch, Analysis.branch]
  refine (inStep_condition hb hs hc).bindSame fun ψ hle _ _ => ?_
  refine (inStep_requireBody hbody).bindSame fun χ hle' _ _ => ?_
  rw [← bind_assoc, ← bind_assoc]
  have hs' := (hs.mono hle).mono hle'
  refine (ih.inner hs' hbody).bindSame fun ω hle'' _ _ => ?_
  cases hother with
  | nil => exact .same trivial
  | cons hn hns => exact ih.inner (hs'.mono hle'') (.cons hn hns)

lemma forLoop_succ {f f' l l' : Node} (hs : φ.Sees scope scope') (hf : Node.Expands true f f')
    (hc : Node.Expands false c c') (hl : Node.Expands true l l')
    (hbody : List.Forall₂ (Node.Expands true) body body') :
    C.pairing.InStep φ Agree (Analysis.forLoop scope returns m f c l body (d + 1))
      (Analysis.forLoop scope' returns m' f' c' l' body' (d' + 1)) := by
  rw [Analysis.forLoop, Analysis.forLoop, hf.isPresent, hc.isPresent, hl.isPresent]
  refine (C.enter hs).bind fun ψ hle loop loop' hloop => ih.clause hloop hf ?_
  refine .ite (fun _ => C.refused) fun _ => ?_
  refine (inStep_condition hb hloop.sees hc).bindSame fun χ hle' _ _ => ?_
  refine ih.clause (hloop.mono hle') hl ?_
  refine (inStep_requireBody hbody).bindSame fun ω hle'' _ _ => ?_
  exact ih.inner ((hloop.sees.mono hle').mono hle'') hbody

lemma whileLoop_succ (hs : φ.Sees scope scope') (hc : Node.Expands false c c')
    (hbody : List.Forall₂ (Node.Expands true) body body') :
    C.pairing.InStep φ Agree (Analysis.whileLoop scope returns m c body (d + 1))
      (Analysis.whileLoop scope' returns m' c' body' (d' + 1)) := by
  rw [Analysis.whileLoop, Analysis.whileLoop]
  refine (inStep_condition hb hs hc).bindSame fun ψ hle _ _ => ?_
  refine (inStep_requireBody hbody).bindSame fun χ hle' _ _ => ?_
  exact ih.inner ((hs.mono hle).mono hle') hbody

end StatementsInStep

/-! ### Expanded loops -/

lemma condition_truth :
    condition scope (.truth m) (d + 2) = decorate m .literal (.type .boolean) := by
  refine outcome_ext fun st => ?_
  rw [condition, expression.eq_def]
  change outcome ((decorate m .literal (.type .boolean) >>= fun _ => pure Ty.boolean) >>= _) st = _
  rw [bind_assoc, outcome_bind, outcome_decorate]
  cases st.decorations.get? m <;> rfl

/-- The second analysis tests TRUE. -/
lemma inStep_truth {x y : Analyze Unit} (h : C.pairing.InStep φ Agree x y) :
    C.pairing.InStep φ Agree x (condition scope' (.truth m) (d + 2) >>= fun _ => y) := by
  refine .bindRight fun ψ hle st st' hst => ?_
  rw [condition_truth, outcome_decorate]
  cases st'.decorations.get? m with
  | some _ => exact .inl ⟨_, _, rfl, .inr ⟨_, rfl⟩⟩
  | none => exact .inr ⟨ψ, (), _, Le.refl ψ, rfl, hst, h.mono hle⟩

/-- Two steps that are taken in the other order by the second analysis. The first of them leaves the
store, and the second only adds to it, so that each may come first. -/
lemma inStep_swap {x₁ x₂ y₁ y₂ : Analyze Unit} (h₁ : C.pairing.InStep φ Agree x₁ y₁)
    (h₂ : C.pairing.InStep φ Agree x₂ y₂) (hx₁ : OnlyDecorates x₁) (hy₁ : OnlyDecorates y₁)
    (hy₂ : DefinesIn none y₂) :
    C.pairing.InStep φ Agree (x₁ >>= fun _ => x₂) (y₂ >>= fun _ => y₁) := by
  intro ψ hle s t hst
  -- Behind the second step the first goes as before it.
  have hbehind {t₂ : State} (hout : outcome y₂ t = (.ok (), t₂)) :
      C.pairing.Alike Agree ψ (outcome x₁ s) (outcome y₁ t₂) := by
    have hkept := hy₂ hout
    exact h₁ hle (hst.of_kept hkept.size fun i hi => hkept.frame i hi nofun)
  rw [outcome_bind, outcome_bind]
  -- The first side stops at its first step: whichever step the second stops at, both refuse.
  rcases hout₁ : outcome x₁ s with ⟨halt | u, s₁⟩
  · rcases hout₂ : outcome y₂ t with ⟨halt' | u', t₂⟩
    · exact .error (Le.refl ψ) trivial
    · have h := hbehind hout₂
      rw [hout₁] at h
      dsimp only
      generalize outcome y₁ t₂ = r at h ⊢
      cases h with
      | left h => exact .left h
      | right h => exact .right h
      | error hle' _ => exact .error hle' trivial
  · have hst₁ : C.pairing.states ψ s₁ t := by
      change Layout.Relates _ _ _ s₁.store _
      rw [(hx₁ hout₁).store]
      exact hst
    -- The first side has only decorated, so the second steps start from stores that correspond.
    have h := h₂ hle hst₁
    dsimp only
    rcases hout₂ : outcome y₂ t with ⟨halt' | u', t₂⟩ <;> rw [hout₂] at h
    · generalize outcome x₂ s₁ = r at h ⊢
      cases h with
      | left h => exact .left h
      | right h => exact .right h
      | error hle' _ => exact .error hle' trivial
    · have h' := hbehind hout₂
      rw [hout₁] at h'
      dsimp only
      generalize outcome x₂ s₁ = r at h ⊢
      cases h with
      | left h => exact .left h
      | @ok χ _ _ s₂ _ hle' hq hst₂ =>
        rcases hout₃ : outcome y₁ t₂ with ⟨halt' | u', t₃⟩ <;> rw [hout₃] at h'
        · cases h' with
          | right h' => exact .right h'
        · refine .ok hle' ⟨rfl, trivial⟩ ?_
          change Layout.Relates _ _ _ _ t₃.store
          rw [(hy₁ hout₃).store]
          exact hst₂

variable {returns : Ty} {f f' c c' l l' : Node} {body body' : List Node} {k : Node.Scaffold}
  {loop loop' : Scope}

/-- An increment does not define anything, so it may be analysed in a scope that stays empty. -/
lemma inStep_increment (hb : C.Budget d d') (hs : φ.Sees scope scope')
    (hl : Node.Expands true l l') (hlast : l.Increments) (hpresent : l.isPresent = true) :
    C.pairing.InStep φ Agree (statement scope returns l d) (statement scope' returns l' d') := by
  refine C.deep.of_succ (f := statement scope returns l) (g := statement scope' returns l') hb rfl
    rfl fun e e' he he' => ?_
  subst he he'
  cases hl with
  | absent => cases hpresent
  | assign _ hr hv => exact inStep_assign hb.pred hs hr hv
  | _ => cases hlast

lemma onlyDecorates_increment (hlast : l.Increments) (hpresent : l.isPresent = true) :
    OnlyDecorates (statement scope returns l d) := by
  cases d with
  | zero => exact .throw _
  | succ d =>
    cases l with
    | absent => cases hpresent
    | assign => exact onlyDecorates_assign
    | _ => cases hlast

/-- A body and the block that it is in the expansion. -/
lemma inStep_body (site : Site) (returns : Ty) (k : Node.Scaffold)
    (ih : StatementsInStep C d (d' + 2)) (hs : φ.Sees loop loop')
    (hbody : List.Forall₂ (Node.Expands true) body body') :
    C.pairing.InStep φ Agree
      (do
        requireBody site "FOR" body
        block (← enter loop) returns body d)
      (statement loop' returns (.branch k.inner (.truth k.innerTest) body' []) (d' + 4)) := by
  rw [statement.eq_def]
  dsimp only
  rw [branch]
  refine inStep_truth ((inStep_requireBody hbody).bindSame fun ψ hle _ _ => ?_)
  refine (C.enter (hs.mono hle)).bind fun χ hle' inner inner' ho => ?_
  rw [← bind_pure_unit (x := block inner returns body d)]
  exact (ih.block returns ho hbody).bindSame fun _ _ _ _ => .same trivial

/-- The rest of a loop behind its condition, and the block of the WHILE loop of its expansion. -/
lemma inStep_rounds (hall : ∀ e < d + 1, ∀ e', C.Budget e e' → StatementsInStep C e e')
    (hbudget : C.Budget (d + 2) (d' + 5)) (hs : φ.Sees loop loop') (hl : Node.Expands true l l')
    (hlast : l.Increments) (hbody : List.Forall₂ (Node.Expands true) body body') :
    C.pairing.InStep φ Agree
      (do
        if l.isPresent = true then
          statement loop returns l d
        requireBody site "FOR" body
        block (← enter loop) returns body d)
      (block loop' returns
        (.branch k.inner (.truth k.innerTest) body' [] :: [l'].filter Node.isPresent) d') := by
  -- Within five levels the expansion is too deep, and the budget lets the second analysis stop.
  by_cases hdeep : d' < 5
  · have hright : C.right := hbudget.right.resolve_right (by omega)
    have hstop : block loop' returns
        (.branch k.inner (.truth k.innerTest) body' [] :: [l'].filter Node.isPresent) d'
          = tooDeep := by
      interval_cases d' <;> rfl
    rw [hstop]
    exact .throwRight (.inl ⟨hright, rfl⟩)
  obtain ⟨e, rfl⟩ := Nat.exists_eq_add_of_le' (Nat.not_lt.1 hdeep)
  have ih := hall d (Nat.lt_succ_self d) (e + 2) (hbudget.shift (by omega) (by omega))
  have hbodies := inStep_body site returns k ih hs hbody
  rw [block]
  -- The increment is analysed before the body on one side and behind it on the other.
  by_cases hpresent : l.isPresent = true
  · have hpresent' := hl.isPresent.trans hpresent
    have hsingle : [l'].forM (fun n => statement loop' returns n (e + 4))
        = statement loop' returns l' (e + 4) := bind_pure_unit
    rw [if_pos hpresent, List.filter_cons_of_pos hpresent']
    refine inStep_swap ?_ hbodies (onlyDecorates_increment hlast hpresent) ?_
      ((statementsDefine _).branch ..)
    · exact hsingle ▸ inStep_increment (hbudget.shift (by omega) (by omega)) hs hl hlast hpresent
    · exact hsingle ▸ onlyDecorates_increment (hl.increments hlast) hpresent'
  · rw [if_neg hpresent, List.filter_cons_of_neg (hl.isPresent ▸ hpresent)]
    change C.pairing.InStep φ Agree _ (statement loop' returns _ (e + 4) >>= fun _ => pure ())
    rw [bind_pure_unit]
    exact hbodies

lemma requireBody_cons {construct : String} {ns : List Node} :
    requireBody site construct (n :: ns) = pure () :=
  rfl

lemma requireBody_append_singleton {construct : String} {ns : List Node} :
    requireBody site construct (ns ++ [n]) = pure () := by
  unfold requireBody
  rw [if_neg]
  simp

/-- The condition and the rounds of a loop, and the WHILE loop of its expansion. -/
lemma inStep_while (site : Site) (returns : Ty) (k : Node.Scaffold)
    (hall : ∀ e < d + 1, ∀ e', C.Budget e e' → StatementsInStep C e e')
    (hbudget : C.Budget (d + 2) (d' + 4)) (hs : φ.Sees loop scope')
    (hc : Node.Expands false c c') (hl : Node.Expands true l l') (hlast : l.Increments)
    (hbody : List.Forall₂ (Node.Expands true) body body') :
    C.pairing.InStep φ Agree
      (do
        condition loop c d
        if l.isPresent = true then
          statement loop returns l d
        requireBody site "FOR" body
        block (← enter loop) returns body d)
      (statement scope' returns
        (.whileLoop k.loop c'
          (.branch k.inner (.truth k.innerTest) body' [] :: [l'].filter Node.isPresent))
        (d' + 1)) := by
  rw [statement.eq_def scope']
  dsimp only
  cases d' with
  | zero =>
    have hright : C.right := hbudget.right.resolve_right (by omega)
    exact .throwRight (.inl ⟨hright, rfl⟩)
  | succ d' =>
    rw [whileLoop]
    refine (inStep_condition (hbudget.shift (by omega) (by omega)) hs hc).bindSame
      fun ψ hle _ _ => ?_
    rw [requireBody_cons, pure_bind]
    refine C.enterSpare (hs.mono hle) fun χ hle' spare hspare => ?_
    exact inStep_rounds hall hbudget hspare hl hlast hbody

/-- A loop and its expansion. The scope of the loop corresponds to that of the outer IF statement,
and the scope of the WHILE loop's block stays empty. -/
lemma inStep_expansion (hall : ∀ e < d, ∀ e', C.Budget e e' → StatementsInStep C e e')
    (hbudget : C.Budget d d') (ho : φ.Owns scope scope') (h : Node.ExpandsLoop n n') :
    C.pairing.InStep φ Agree (statement scope returns n d) (statement scope' returns n' d') := by
  obtain @⟨m, k, f, f', c, c', l, l', body, body', hinitial, hpresent, hlast, hf, hc, hl, hbody⟩ :=
    h
  refine C.deep.of_depth (f := statement scope returns (.forLoop m f c l body))
    (g := statement scope' returns (.expansion k f' c' l' body')) hbudget
    (by decide : 2 ≤ 4 ∧ 4 ≤ 10) (fun d hd => ?_) (fun d hd => ?_) fun hd hd' => ?_
  · interval_cases d <;> rfl
  · interval_cases d <;> rfl
  -- Below two levels the loop, and below four its expansion, is too deep.
  obtain ⟨e, rfl⟩ := Nat.exists_eq_add_of_le' hd
  obtain ⟨e', rfl⟩ := Nat.exists_eq_add_of_le' hd'
  have hwhile {ψ : Layout} {loop inner : Scope} (hloop : ψ.Owns loop inner) :=
    inStep_while ⟨some .forLoop, m.position⟩ returns k
      (fun e he => hall e (Nat.lt_succ_of_lt he)) hbudget hloop.sees hc hl hlast hbody
  rw [statement.eq_def, statement.eq_def scope' returns]
  dsimp only [Node.expansion]
  rw [forLoop, branch, requireBody_append_singleton, pure_bind, hpresent]
  refine inStep_truth ((C.enter ho.sees).bind fun ψ hle loop inner hloop => ?_)
  change C.pairing.InStep ψ Agree _ (block inner returns _ (e' + 2) >>= fun _ => pure ())
  rw [bind_pure_unit, block]
  have hrest := hwhile hloop
  rw [← bind_pure_unit (x := statement inner returns _ (e' + 1))] at hrest
  by_cases hfirst : f.isPresent = true
  · rw [if_pos hfirst, List.filter_cons_of_pos (hf.isPresent.trans hfirst)]
    have ih := hall e (by omega) (e' + 1) (hbudget.shift (by omega) (by omega))
    exact (ih.statement returns hloop hf).bindSame fun _ hle' _ _ => hrest.mono hle'
  · rw [if_neg hfirst, List.filter_cons_of_neg (hf.isPresent ▸ hfirst)]
    exact hrest

end

/-- The rules for statements are in step at all depths that the comparison allows. -/
theorem statementsInStep (C : Comparison) {d d' : Nat} (hb : C.Budget d d') :
    StatementsInStep C d d' := by
  induction d using Nat.strongRecOn generalizing d' with
  | ind d ih =>
    have hall : ∀ e < d, ∀ e', C.Budget e e' → StatementsInStep C e e' := fun e he e' => ih e he
    -- The rules below are in step, and the depths there are allowed.
    have hboth : ∀ e < d, ∀ e', C.Budget e e' → C.Budget e e' ∧ StatementsInStep C e e' :=
      fun e he e' hb => ⟨hb, hall e he e' hb⟩
    refine {
      block := fun returns ho h => C.deep.of_below hb hall rfl rfl fun e e' hat => ?_
      statement := fun returns ho h => ?_
      branch := fun returns hs hc hbody hother =>
        C.deep.of_below hb hboth rfl rfl fun e e' hat => hat.2.branch_succ hat.1 hs hc hbody hother
      forLoop := fun returns hs hf hc hl hbody =>
        C.deep.of_below hb hboth rfl rfl fun e e' hat =>
          hat.2.forLoop_succ hat.1 hs hf hc hl hbody
      whileLoop := fun returns hs hc hbody =>
        C.deep.of_below hb hboth rfl rfl fun e e' hat => hat.2.whileLoop_succ hat.1 hs hc hbody }
    · rw [block, block]
      exact .forM (fun n n' hn => hat.statement returns ho hn) h
    · -- A statement is kept, with expansions in its parts, or it is a loop that is expanded itself.
      rcases h.kept_or_loop with h | h
      · exact C.deep.of_below hb hboth rfl rfl fun e e' hat => hat.2.statement_succ hat.1 ho h
      · exact inStep_expansion hall hb ho h

/-! ### Programs -/

section

variable {C : Comparison} {φ : Layout} {d d' : Nat} {globals scope scope' : Scope}
  {site site' : Site}

lemma inStep_field (hb : C.Budget d d') (ho : φ.Owns globals globals) {f f' : Field}
    (hf : f.Expands f') :
    C.pairing.InStep φ Agree (field globals f d) (field globals f' d') := by
  refine C.deep.of_succ (f := field globals f) (g := field globals f') hb rfl rfl
    fun e e' he he' => ?_
  subst he he'
  rw [field, field, hf.value.isPresent, hf.name, hf.typeName, hf.constant]
  refine (inStep_optionalValue hb.pred ho.sees hf.value).bindSame fun ψ hle value hvalue => ?_
  refine .ite (fun _ => C.refused) fun _ => ?_
  refine (inStep_declaredType hvalue).bindSame fun χ hle' t ht => ?_
  exact (inStep_defineVariable ((ho.mono hle).mono hle') ht).bindSame fun _ _ _ _ => C.decorate

lemma inStep_returnType {m m' : Method} (hm : m.Expands m') :
    C.pairing.InStep φ C.Yields (returnType m) (returnType m') := by
  unfold returnType
  rw [hm.returnType]
  cases m.returnType with
  | none => exact .same (Ty.within_of_plain rfl)
  | some name => exact inStep_resolve name

lemma inStep_defineParameters (ho : φ.Owns scope scope') {parameters : List (String × Ty)}
    (hparameters : ∀ p ∈ parameters, p.2.Within C.base) :
    C.pairing.InStep φ Agree (defineParameters site scope parameters)
      (defineParameters site' scope' parameters) := by
  induction parameters generalizing φ with
  | nil => exact .same trivial
  | cons parameter parameters ih =>
    rw [List.forall_mem_cons] at hparameters
    refine (inStep_defineVariable ho hparameters.1).bindSame fun ψ hle _ _ => ?_
    exact ih (ho.mono hle) hparameters.2

lemma inStep_method (hb : C.Budget d d') (ho : φ.Owns globals globals) {m m' : Method}
    (hm : m.Expands m') :
    C.pairing.InStep φ Agree (method globals m d) (method globals m' d') := by
  refine C.deep.of_succ (f := method globals m) (g := method globals m') hb rfl rfl
    fun e e' he he' => ?_
  subst he he'
  rw [method, method, hm.name, hm.parameters, hm.parameterTypes]
  -- Expansion keeps the names of types, but the sites at which they are resolved differ.
  have hresolve (name name' : String) (heq : name = name') : C.pairing.InStep φ C.Yields
      (resolve m.site (Ty.ofName name)) (resolve m'.site (Ty.ofName name')) := by
    subst heq
    exact inStep_resolve name
  have htypes : List.Forall₂ Eq m.parameterTypes m.parameterTypes :=
    List.forall₂_same.2 fun _ _ => rfl
  refine (Pairing.InStep.mapM hresolve htypes).bindSame fun ψ hle types hwithin => ?_
  refine (inStep_returnType hm).bindSame fun χ hle' returns hreturns => ?_
  have ho' := (ho.mono hle).mono hle'
  have hg : Function.Within C.base ⟨m.name, m.name, types, returns, .native .nothing⟩ :=
    Function.within_of_native rfl hwithin hreturns
  refine (C.addFunction ho' hg).bindSame fun ω hle'' _ _ => ?_
  refine C.decorate.bindSame fun ω' hle₁ _ _ => ?_
  refine (C.enter ((ho'.sees.mono hle'').mono hle₁)).bind fun ω'' hle₂ scope scope' hscope => ?_
  refine (inStep_defineParameters hscope fun p hp => hwithin _ (List.of_mem_zip hp).2).bindSame
    fun _ hle₃ _ _ => ?_
  exact .forM (fun n n' hn =>
    (statementsInStep C hb.pred).statement returns (hscope.mono hle₃) hn) hm.body

lemma inStep_requireMain (hs : φ.Sees globals globals) :
    C.pairing.InStep φ Agree (requireMain globals site) (requireMain globals site') := by
  have hmain : C.pairing.InStep φ (fun _ => Function.SameWithin C.base) (findMain globals site)
      (findMain globals site') := by
    intro ψ hle st st' hst
    have hfind : Layout.Functions (Function.SameWithin C.base)
        (st.store.lookupFunction globals "main" 0) (st'.store.lookupFunction globals "main" 0) :=
      hst.lookupFunction Function.SameWithin.key (hs.mono hle)
    rw [outcome_findMain, outcome_findMain]
    generalize st.store.lookupFunction globals "main" 0 = r at hfind ⊢
    generalize st'.store.lookupFunction globals "main" 0 = r' at hfind ⊢
    cases hfind with
    | found hg => exact .ok (Le.refl ψ) hg hst
    | missing e => exact .error (Le.refl ψ) trivial
  refine hmain.bind fun _ _ main main' hg => ?_
  rw [hg.1]
  exact .ite (fun _ => .same trivial) fun _ => C.refuses

/-- A program and one with loops expanded, in a common scope. -/
theorem inStep_program (hb : C.Budget d d') (hglobals : globals.Within C.base) {p p' : Program}
    (hp : p.Expands p') :
    C.pairing.InStep φ Agree (program d globals p) (program d' globals p') := by
  refine .of_states fun ψ _ _ _ hst => ?_
  have ho := hst.owns_of_within hglobals
  unfold program
  refine (Pairing.InStep.forM (fun f f' hf => inStep_field hb ho hf) hp.fields).bindSame
    fun χ hle _ _ => ?_
  refine (Pairing.InStep.forM (fun m m' hm => inStep_method hb (ho.mono hle) hm)
    hp.methods).bindSame fun ω hle' _ _ => ?_
  exact inStep_requireMain ((ho.sees.mono hle).mono hle')

end

end Analysis

end LetDef
