import LetDef.Proofs.Analysis.Completeness
import LetDef.Proofs.Analysis.Program
import Mathlib.Data.List.Forall2

/-!
# What the global scope holds

Analysis defines fields and methods one after the other, and so the global scope always holds those
that come first in the program. A field is defined when all of it is analysed, a method before its
parameters and its body are. Nothing else is ever defined there, and the scopes around it are never
touched. Where the analysis of a program stops, `StopsAt` says in which part.
-/

namespace LetDef.Analysis

variable {st st₁ : State} {host : Store} {globals : Scope} {depth : Nat} {f : Field} {m : Method}
  {fields : List Field} {methods : List Method} {q : Program} {halt : Halt}

/-! ### Fields and methods in two parts -/

/-- Finds the type of a field. -/
def fieldType (globals : Scope) (f : Field) : Nat → Analyze Ty
  | 0 => tooDeep
  | depth + 1 => do
    let valueType ← optionalValue globals f.value depth
    if f.constant && !f.value.isPresent then fail f.site (.constantWithoutValue f.name)
    declaredType f.site f.name f.typeName valueType

/-- A field is defined when its type is found. -/
lemma field_eq : field globals f depth = (do
    let t ← fieldType globals f depth
    defineVariable f.site globals f.name t f.constant
    decorate f.mark .field (.variable ⟨globals.frame, f.name⟩)) := by
  cases depth with
  | zero => rfl
  | succ depth =>
    simp only [field, fieldType, bind_assoc]
    congr
    funext valueType
    split <;> simp only [bind_assoc]

/-- Defines a method. -/
def signature (globals : Scope) (m : Method) : Nat → Analyze (List Ty × Ty)
  | 0 => tooDeep
  | _ + 1 => do
    let parameters ← m.parameterTypes.mapM fun name => resolve m.site (Ty.ofName name)
    let returns ← returnType m
    addFunction m.site globals ⟨m.name, m.name, parameters, returns, .native .nothing⟩
    return (parameters, returns)

/-- Analyses a method that is defined. -/
def inside (globals : Scope) (m : Method) (types : List Ty × Ty) (depth : Nat) : Analyze Unit := do
  decorate m.mark .method (.function ⟨globals.frame, m.name, types.1.length⟩)
  let scope ← enter globals
  defineParameters m.site scope (m.parameters.zip types.1)
  m.body.forM fun n => statement scope types.2 n (depth - 1)

/-- A method is defined before it is analysed inside. -/
lemma method_eq : method globals m depth = (do
    let types ← signature globals m depth
    inside globals m types depth) := by
  cases depth with
  | zero => rfl
  | succ depth => simp only [method, signature, inside, bind_assoc, pure_bind, Nat.add_sub_cancel]

/-! ### The invariant -/

/-- The variable that a field is defined as. Its type is declared or else that of the value. -/
def Declares (st : State) (f : Field) (v : Variable) : Prop :=
  ∃ t, v = ⟨f.name, f.name, t, f.constant, .unset⟩ ∧
    f.typeName.elim (st.typeOf? f.value = some t) fun name => Ty.ofName name = .ok t

/-- The function that a method is defined as. -/
def Defines (m : Method) (g : Function) : Prop :=
  ∃ parameters returns, m.parameterTypes.mapM Ty.ofName = .ok parameters ∧
    m.returns = .ok returns ∧ g = ⟨m.name, m.name, parameters, returns, .native .nothing⟩

/-- The global scope holds the fields and, after `print`, the methods, and the scopes of the host
are as they were. -/
structure Holds (host : Store) (globals : Scope) (fields : List Field) (methods : List Method)
    (st : State) : Prop where
  known : globals.frame < st.store.frames.size
  vars : List.Forall₂ (Declares st) fields (st.store.frame globals.frame).vars
  functions : ∃ defined,
    (st.store.frame globals.frame).functions = Analysis.printFunction :: defined ∧
    List.Forall₂ Defines methods defined
  outer : ∀ i < globals.frame, st.store.frame i = host.frame i

lemma Declares.le {v : Variable} (h : Declares st f v) (hle : st.Le st₁) : Declares st₁ f v := by
  obtain ⟨t, rfl, ht⟩ := h
  refine ⟨t, rfl, ?_⟩
  cases htype : f.typeName with
  | none =>
    rw [htype] at ht
    exact hle.typeOf? ht
  | some name =>
    rw [htype] at ht
    exact ht

namespace Holds

/-- Frames may be added. -/
lemma keeps (h : Holds host globals fields methods st) (hk : State.Keeps none st st₁)
    (hle : st.Le st₁) : Holds host globals fields methods st₁ := by
  have hframe := hk.frame globals.frame h.known nofun
  refine ⟨h.known.trans_le hk.size, ?_, ?_, fun i hi => ?_⟩
  · rw [hframe]
    exact h.vars.imp fun _ _ hv => hv.le hle
  · rw [hframe]
    exact h.functions
  · rw [hk.frame i (hi.trans h.known) nofun]
    exact h.outer i hi

/-- Nodes may be decorated. -/
lemma decorates (h : Holds host globals fields methods st) (hd : st.Decorates st₁) :
    Holds host globals fields methods st₁ := by
  refine h.keeps ⟨by rw [hd.store], fun i _ _ => by rw [hd.store]⟩ ⟨hd.decorations, ?_, ?_⟩ <;>
    intro i <;> rw [hd.store]

lemma addVariable {v : Variable} (h : Holds host globals fields methods st)
    (hv : Declares st f v) :
    Holds host globals (fields ++ [f]) methods
      { st with store := st.store.addVariable globals v } := by
  have hle := (State.Later.addVariable st globals v).toLe
  have hframe : (st.store.addVariable globals v).frame globals.frame
      = { st.store.frame globals.frame with vars := (st.store.frame globals.frame).vars ++ [v] } :=
    Store.frame_modifyFrame_self h.known
  refine ⟨?_, ?_, ?_, fun i hi => ?_⟩
  · exact h.known.trans_le (Nat.le_of_eq Store.size_modifyFrame.symm)
  · rw [hframe]
    exact List.rel_append (h.vars.imp fun _ _ hw => hw.le hle) (.cons (hv.le hle) .nil)
  · rw [hframe]
    exact h.functions
  · rw [← h.outer i hi]
    exact Store.frame_modifyFrame_of_ne hi.ne

lemma addFunction {g : Function} (h : Holds host globals fields methods st) (hg : Defines m g) :
    Holds host globals fields (methods ++ [m])
      { st with store := st.store.addFunction globals g } := by
  have hle := (State.Later.addFunction st globals g).toLe
  have hframe : (st.store.addFunction globals g).frame globals.frame
      = { st.store.frame globals.frame with
          functions := (st.store.frame globals.frame).functions ++ [g] } :=
    Store.frame_modifyFrame_self h.known
  obtain ⟨defined, hfunctions, hdefined⟩ := h.functions
  refine ⟨?_, ?_, ⟨defined ++ [g], ?_, ?_⟩, fun i hi => ?_⟩
  · exact h.known.trans_le (Nat.le_of_eq Store.size_modifyFrame.symm)
  · rw [hframe]
    exact h.vars.imp fun _ _ hw => hw.le hle
  · rw [hframe, hfunctions]
    rfl
  · exact List.rel_append hdefined (.cons hg .nil)
  · rw [← h.outer i hi]
    exact Store.frame_modifyFrame_of_ne hi.ne

end Holds

/-! ### Steps that stop -/

lemma halts_addVariable {site : Site} {v : Variable}
    (h : Halts (addVariable site globals v) st halt st₁) : st₁ = st := by
  unfold Halts addVariable at h
  rw [outcome_resolving, outcome_newVariable] at h
  cases hconflict : st.store.variableConflict? globals v.name <;> rw [hconflict] at h <;> cases h
  rfl

lemma halts_addFunction {site : Site} {g : Function}
    (h : Halts (addFunction site globals g) st halt st₁) : st₁ = st := by
  unfold Halts addFunction at h
  rw [outcome_resolving, outcome_newFunction] at h
  cases hconflict : st.store.functionConflict? globals g.name g.arity <;> rw [hconflict] at h <;>
    cases h
  rfl

lemma halts_decorate {mark : Mark} {kind : Node.Kind} {d : Decoration}
    (h : Halts (decorate mark kind d) st halt st₁) : halt = .decorated kind := by
  unfold Halts at h
  rw [outcome_decorate] at h
  cases hd : st.decorations.get? mark <;> rw [hd] at h <;> cases h
  rfl

/-! ### Fields -/

lemma onlyDecorates_fieldType : OnlyDecorates (fieldType globals f depth) := by
  cases depth with
  | zero => exact .throw _
  | succ depth =>
    refine onlyDecorates_optionalValue.bind fun valueType => ?_
    dsimp only
    split
    · exact (OnlyDecorates.throw _).bind fun _ => onlyDecorates_declaredType
    · exact onlyDecorates_declaredType

/-- The value of a field has the type that is found for it. -/
lemma typeOf?_of_optionalValue {n : Node} {site : Site} {t : Ty}
    (h : Gives (optionalValue globals n depth) st (some (site, t)) st₁) :
    st₁.typeOf? n = some t := by
  unfold optionalValue at h
  split at h
  · obtain ⟨t', st', hvalue, hp⟩ := gives_bind.1 h
    obtain ⟨hfound, rfl⟩ := gives_pure.1 hp
    cases hfound
    exact ((expressionsRead depth).expression globals n hvalue st₁ (.refl _)).2
  · obtain ⟨hfound, -⟩ := gives_pure.1 h
    cases hfound

lemma gives_fieldType {t : Ty} (h : Gives (fieldType globals f depth) st t st₁) :
    f.typeName.elim (st₁.typeOf? f.value = some t) fun name => Ty.ofName name = .ok t := by
  cases depth with
  | zero => exact absurd h not_gives_throw
  | succ depth =>
    obtain ⟨found, st', hvalue, hrest⟩ := gives_bind.1 h
    obtain ⟨u, hconstant, hdeclared⟩ := gives_ite_bind.1 hrest
    obtain ⟨rfl, -, htype⟩ := gives_declaredType hdeclared
    obtain rfl : st₁ = st' := by
      split at hconstant
      · exact absurd hconstant not_gives_throw
      · exact (gives_pure.1 hconstant).2
    cases hname : f.typeName with
    | none =>
      rw [hname] at htype
      obtain ⟨p, rfl, rfl⟩ := htype
      exact typeOf?_of_optionalValue hvalue
    | some name =>
      rw [hname] at htype
      exact htype

/-- A field that is analysed with success is added to those before. -/
lemma Holds.field {u : Unit} (h : Holds host globals fields methods st)
    (hf : Gives (field globals f depth) st u st₁) :
    Holds host globals (fields ++ [f]) methods st₁ := by
  rw [field_eq] at hf
  obtain ⟨t, st', htype, hrest⟩ := gives_bind.1 hf
  obtain ⟨_, st'', hadd, hd⟩ := gives_bind.1 hrest
  obtain ⟨-, rfl⟩ := gives_addVariable hadd
  have hdeclares : Declares st' f ⟨f.name, f.name, t, f.constant, .unset⟩ :=
    ⟨t, rfl, gives_fieldType htype⟩
  exact ((h.decorates (onlyDecorates_fieldType htype)).addVariable hdeclares).decorates
    (OnlyDecorates.decorate hd)

/-- Where the analysis of a field stops, it is not defined. -/
lemma Holds.of_field_halts (h : Holds host globals fields methods st)
    (hhalt : ∀ kind, halt ≠ .decorated kind)
    (hf : Halts (Analysis.field globals f depth) st halt st₁) :
    Holds host globals fields methods st₁ := by
  rw [field_eq, halts_bind] at hf
  rcases hf with htype | ⟨t, st', htype, hrest⟩
  · exact h.decorates (onlyDecorates_fieldType htype)
  have h' := h.decorates (onlyDecorates_fieldType htype)
  rcases halts_bind.1 hrest with hadd | ⟨_, st'', _, hd⟩
  · rw [halts_addVariable hadd]
    exact h'
  · exact absurd (halts_decorate hd) (hhalt _)

/-! ### Methods -/

lemma onlyDecorates_resolve {site : Site} {name : String} :
    OnlyDecorates (resolve site (Ty.ofName name)) :=
  .still fun st => by rw [resolve, outcome_resolving, outcome_unwrap]

lemma onlyDecorates_returnType : OnlyDecorates (returnType m) := by
  unfold returnType
  split
  · exact onlyDecorates_resolve
  · exact .pure _

/-- A method that is defined with success is added to those before. -/
lemma Holds.signature {types : List Ty × Ty} (h : Holds host globals fields methods st)
    (hm : Gives (signature globals m depth) st types st₁) :
    Holds host globals fields (methods ++ [m]) st₁ := by
  cases depth with
  | zero => exact absurd hm not_gives_throw
  | succ depth =>
    obtain ⟨parameters, st', htypes, h₁⟩ := gives_bind.1 hm
    obtain ⟨returns, st'', hreturns, h₂⟩ := gives_bind.1 h₁
    obtain ⟨_, st₃, hadd, hp⟩ := gives_bind.1 h₂
    obtain ⟨rfl, hparameters, -⟩ := gives_types htypes
    obtain ⟨rfl, -, hdeclared⟩ := gives_returnType hreturns
    obtain ⟨-, rfl⟩ := gives_addFunction hadd
    obtain ⟨-, rfl⟩ := gives_pure.1 hp
    exact h.addFunction ⟨parameters, returns, hparameters, hdeclared, rfl⟩

/-- Where a method cannot be defined, nothing is. -/
lemma Holds.of_signature_halts (h : Holds host globals fields methods st)
    (hm : Halts (Analysis.signature globals m depth) st halt st₁) :
    Holds host globals fields methods st₁ := by
  cases depth with
  | zero =>
    cases hm
    exact h
  | succ depth =>
    have hnames :
        OnlyDecorates (m.parameterTypes.mapM fun name => resolve m.site (Ty.ofName name)) :=
      .mapM (fun _ => onlyDecorates_resolve) m.parameterTypes
    rcases halts_bind.1 hm with htypes | ⟨parameters, st', htypes, h₁⟩
    · exact h.decorates (hnames htypes)
    have h' := h.decorates (hnames htypes)
    rcases halts_bind.1 h₁ with hreturns | ⟨returns, st'', hreturns, h₂⟩
    · exact h'.decorates (onlyDecorates_returnType hreturns)
    have h'' := h'.decorates (onlyDecorates_returnType hreturns)
    rcases halts_bind.1 h₂ with hadd | ⟨_, st₃, _, hp⟩
    · rw [halts_addFunction hadd]
      exact h''
    · exact absurd hp not_halts_pure

lemma definesIn_defineParameters {site : Site} {scope : Scope} (parameters : List (String × Ty)) :
    DefinesIn (some scope.frame) (defineParameters site scope parameters) := by
  induction parameters with
  | nil => exact .of_onlyDecorates (.pure _)
  | cons parameter rest ih => exact DefinesIn.addVariable.bind fun _ => ih

/-- Inside a method nothing is defined but in frames of its own. -/
lemma definesIn_inside {types : List Ty × Ty} : DefinesIn none (inside globals m types depth) :=
  (DefinesIn.of_onlyDecorates .decorate).bind fun _ => .enter fun scope =>
    (definesIn_defineParameters _).bind fun _ =>
      .forM (fun n => (statementsDefine _).statement scope types.2 n) m.body

lemma advances_inside (globals : Scope) (m : Method) (types : List Ty × Ty) (depth : Nat) :
    Advances (inside globals m types depth) := by
  refine (congruence_advances.decorate _ _ _).bind fun _ => ?_
  refine (congruence_advances.enter _).bind fun scope => ?_
  refine (congruence_advances.defineParameters _).bind fun _ => ?_
  exact (Completes.forM_nodes ((statementsComplete (depth - 1)).statement scope types.2)
    m.body).advances

/-- However the analysis inside a method ends, the global scope is as before. -/
lemma Holds.inside {types : List Ty × Ty} {r : Except Halt Unit}
    (h : Holds host globals fields methods st)
    (hm : outcome (inside globals m types depth) st = (r, st₁)) :
    Holds host globals fields methods st₁ := by
  have hlater := advances_inside globals m types depth st
  rw [hm] at hlater
  exact h.keeps (definesIn_inside hm) hlater.toLe

/-! ### Programs -/

lemma Holds.addFields {u : Unit} {fs : List Field} (h : Holds host globals fields methods st)
    (hfs : Gives (fs.forM fun f => Analysis.field globals f depth) st u st₁) :
    Holds host globals (fields ++ fs) methods st₁ := by
  induction fs generalizing st fields with
  | nil =>
    obtain ⟨-, rfl⟩ := gives_pure.1 hfs
    rwa [List.append_nil]
  | cons f fs ih =>
    obtain ⟨_, st', hf, hrest⟩ := gives_bind.1 hfs
    rw [List.append_cons]
    exact ih (h.field hf) hrest

lemma Holds.addMethods {u : Unit} {ms : List Method} (h : Holds host globals fields methods st)
    (hms : Gives (ms.forM fun m => method globals m depth) st u st₁) :
    Holds host globals fields (methods ++ ms) st₁ := by
  induction ms generalizing st methods with
  | nil =>
    obtain ⟨-, rfl⟩ := gives_pure.1 hms
    rwa [List.append_nil]
  | cons m ms ih =>
    obtain ⟨_, st', hm, hrest⟩ := gives_bind.1 hms
    dsimp only at hm
    rw [method_eq] at hm
    obtain ⟨types, st'', hsignature, hinside⟩ := gives_bind.1 hm
    rw [List.append_cons]
    exact ih ((h.signature hsignature).inside hinside) hrest

lemma onlyDecorates_requireMain {site : Site} : OnlyDecorates (requireMain globals site) := by
  refine .bind (.still fun st => ?_) fun main => .ite (.pure _) (.throw _)
  rw [outcome_findMain]

/-- A part of a program where its analysis may stop. -/
inductive StopPoint where
  /-- The value or the declaration of a field. -/
  | field (i : Nat)
  /-- The types that a method is declared with, or its definition. -/
  | signature (j : Nat)
  /-- The parameters or the body of a method. -/
  | inside (j : Nat)
  /-- The check for `main`. -/
  | main

namespace StopPoint

/-- How many fields are defined before the place. -/
def fieldCount (q : Program) : StopPoint → Nat
  | field i => i
  | signature _ | inside _ | main => q.fields.length

/-- How many methods are defined before the place. -/
def methodCount (q : Program) : StopPoint → Nat
  | field _ => 0
  | signature j => j
  | inside j => j + 1
  | main => q.methods.length

end StopPoint

/-- The analysis of a program stops at the place, after all parts before it were analysed with
success. -/
inductive HaltsAt (depth : Nat) (globals : Scope) (q : Program) (st : State) (halt : Halt)
    (st₁ : State) : StopPoint → Prop
  | field {i : Nat} {f : Field} {st' : State} (hf : q.fields[i]? = some f)
      (hbefore : Gives ((q.fields.take i).forM fun f => field globals f depth) st ⟨⟩ st')
      (hhalts : Halts (field globals f depth) st' halt st₁) :
      HaltsAt depth globals q st halt st₁ (.field i)
  | signature {j : Nat} {m : Method} {st' st'' : State} (hm : q.methods[j]? = some m)
      (hfields : Gives (q.fields.forM fun f => Analysis.field globals f depth) st ⟨⟩ st')
      (hbefore : Gives ((q.methods.take j).forM fun m => method globals m depth) st' ⟨⟩ st'')
      (hhalts : Halts (signature globals m depth) st'' halt st₁) :
      HaltsAt depth globals q st halt st₁ (.signature j)
  | inside {j : Nat} {m : Method} {types : List Ty × Ty} {st' st'' st₃ : State}
      (hm : q.methods[j]? = some m)
      (hfields : Gives (q.fields.forM fun f => Analysis.field globals f depth) st ⟨⟩ st')
      (hbefore : Gives ((q.methods.take j).forM fun m => method globals m depth) st' ⟨⟩ st'')
      (hsignature : Gives (Analysis.signature globals m depth) st'' types st₃)
      (hhalts : Halts (inside globals m types depth) st₃ halt st₁) :
      HaltsAt depth globals q st halt st₁ (.inside j)
  | main {st' st'' : State}
      (hfields : Gives (q.fields.forM fun f => Analysis.field globals f depth) st ⟨⟩ st')
      (hmethods : Gives (q.methods.forM fun m => method globals m depth) st' ⟨⟩ st'')
      (hhalts : Halts (requireMain globals q.site) st'' halt st₁) :
      HaltsAt depth globals q st halt st₁ .main

/-- Analysis that stops does so at a place. -/
lemma halts_program_iff :
    Halts (program depth globals q) st halt st₁ ↔
      ∃ place, HaltsAt depth globals q st halt st₁ place := by
  unfold program
  constructor
  · intro h
    rcases halts_bind.1 h with hfield | ⟨_, st', hfields, h₁⟩
    · obtain ⟨i, f, st', hf, hbefore, hhalts⟩ := halts_forM.1 hfield
      exact ⟨_, .field hf hbefore hhalts⟩
    rcases halts_bind.1 h₁ with hmethod | ⟨_, st'', hmethods, hmain⟩
    · obtain ⟨j, m, st'', hm, hbefore, hhalts⟩ := halts_forM.1 hmethod
      rw [method_eq, halts_bind] at hhalts
      rcases hhalts with hsignature | ⟨types, st₃, hsignature, hinside⟩
      · exact ⟨_, .signature hm hfields hbefore hsignature⟩
      · exact ⟨_, .inside hm hfields hbefore hsignature hinside⟩
    · exact ⟨_, .main hfields hmethods hmain⟩
  · rintro ⟨place, h⟩
    cases h with
    | field hf hbefore hhalts =>
      exact halts_bind.2 (.inl (halts_forM.2 ⟨_, _, _, hf, hbefore, hhalts⟩))
    | signature hm hfields hbefore hhalts =>
      refine halts_bind.2 (.inr ⟨_, _, hfields, halts_bind.2 (.inl (halts_forM.2 ?_))⟩)
      refine ⟨_, _, _, hm, hbefore, ?_⟩
      rw [method_eq]
      exact halts_bind.2 (.inl hhalts)
    | inside hm hfields hbefore hsignature hhalts =>
      refine halts_bind.2 (.inr ⟨_, _, hfields, halts_bind.2 (.inl (halts_forM.2 ?_))⟩)
      refine ⟨_, _, _, hm, hbefore, ?_⟩
      rw [method_eq]
      exact halts_bind.2 (.inr ⟨_, _, hsignature, hhalts⟩)
    | main hfields hmethods hhalts =>
      exact halts_bind.2 (.inr ⟨_, _, hfields, halts_bind.2 (.inr ⟨_, _, hmethods, hhalts⟩)⟩)

lemma Holds.program {u : Unit} (h : Holds host globals [] [] st)
    (hq : Gives (program depth globals q) st u st₁) :
    Holds host globals q.fields q.methods st₁ := by
  obtain ⟨_, st', hfields, h₁⟩ := gives_bind.1 hq
  obtain ⟨_, st'', hmethods, hmain⟩ := gives_bind.1 h₁
  exact ((h.addFields hfields).addMethods hmethods).decorates (onlyDecorates_requireMain hmain)

/-- Where analysis stops, the global scope holds all parts before the place. -/
lemma HaltsAt.holds {place : StopPoint} (h : HaltsAt depth globals q st halt st₁ place)
    (hhalt : ∀ kind, halt ≠ .decorated kind) (hst : Holds host globals [] [] st) :
    Holds host globals (q.fields.take (place.fieldCount q))
      (q.methods.take (place.methodCount q)) st₁ := by
  cases h with
  | field hf hbefore hhalts => exact (hst.addFields hbefore).of_field_halts hhalt hhalts
  | signature hm hfields hbefore hhalts =>
    rw [StopPoint.fieldCount, List.take_length]
    exact ((hst.addFields hfields).addMethods hbefore).of_signature_halts hhalts
  | inside hm hfields hbefore hsignature hhalts =>
    rw [StopPoint.fieldCount, List.take_length, StopPoint.methodCount, List.take_add_one, hm]
    exact (((hst.addFields hfields).addMethods hbefore).signature hsignature).inside hhalts
  | main hfields hmethods hhalts =>
    rw [StopPoint.fieldCount, List.take_length, StopPoint.methodCount, List.take_length]
    exact ((hst.addFields hfields).addMethods hmethods).decorates (onlyDecorates_requireMain hhalts)

/-- A place is inside the program. -/
lemma HaltsAt.bounds {place : StopPoint} (h : HaltsAt depth globals q st halt st₁ place) :
    place.fieldCount q ≤ q.fields.length ∧ place.methodCount q ≤ q.methods.length := by
  cases h with
  | field hf _ _ => exact ⟨(List.getElem?_eq_some_iff.1 hf).1.le, Nat.zero_le _⟩
  | signature hm _ _ _ => exact ⟨Nat.le_refl _, (List.getElem?_eq_some_iff.1 hm).1.le⟩
  | inside hm _ _ _ _ => exact ⟨Nat.le_refl _, (List.getElem?_eq_some_iff.1 hm).1⟩
  | main _ _ _ => exact ⟨Nat.le_refl _, Nat.le_refl _⟩

/-- What the global scope holds tells how many fields and methods are defined. -/
lemma Holds.length_eq {fields' : List Field} {methods' : List Method}
    (h : Holds host globals fields methods st) (h' : Holds host globals fields' methods' st) :
    fields.length = fields'.length ∧ methods.length = methods'.length := by
  obtain ⟨defined, hfunctions, hdefined⟩ := h.functions
  obtain ⟨defined', hfunctions', hdefined'⟩ := h'.functions
  rw [hfunctions, List.cons.injEq] at hfunctions'
  refine ⟨h.vars.length_eq.trans h'.vars.length_eq.symm, ?_⟩
  rw [hdefined.length_eq, hfunctions'.2, hdefined'.length_eq]

/-- At first the global scope holds `print` only. -/
lemma holds_fresh (parent : Option Scope) (host : Store) (depth : Nat) (d : Decorations) :
    Holds host (Analyser.fresh parent host depth).globals [] []
      ⟨(Analyser.fresh parent host depth).store, d⟩ := by
  have hnew : (host.enter parent).2.frame host.frames.size = {} := by
    rw [Store.frame_enter, Store.frame]
    simp
  have hsize : host.frames.size < (host.enter parent).2.frames.size := by
    rw [Store.size_enter]
    exact Nat.lt_succ_self _
  have hframe : ((host.enter parent).2.addFunction (host.enter parent).1
      Analysis.printFunction).frame host.frames.size =
        { functions := [Analysis.printFunction] } := by
    rw [Store.addFunction]
    refine (Store.frame_modifyFrame_self hsize).trans ?_
    rw [hnew]
    rfl
  refine ⟨(Analyser.fresh parent host depth).known, ?_, ⟨[], ?_, .nil⟩, fun i hi => ?_⟩
  · exact hframe ▸ .nil
  · exact congrArg Frame.functions hframe
  · have hold : (host.enter parent).2.frame i = host.frame i := by rw [Store.frame_enter]
    exact (Store.frame_modifyFrame_of_ne (Nat.ne_of_lt hi)).trans hold

end LetDef.Analysis
