import LetDef.Pipeline
import LetDef.Proofs.Syntax.WellFormed

/-!
# The type system

Which programs are typed, said as rules. The rules speak about the state in which analysis ends:
there every expression has a type, and every declaration and parameter a variable. A rule asks in
addition that the parts of a construct fit.

A name is looked up in a list of bindings, the nearest first, and stands for an origin: the
declaration or the parameter that its variable is made for. A statement is typed among the bindings
of its own block, to which it may add, and those around the block, to which it may not.
-/

namespace LetDef

open Execution (Origin)

/-! ### What analysis knows in the end -/

namespace Analysis.State

/-- The type of an expression: as decorated, or else that of its variable or function. -/
def typeOf? (final : State) (n : Node) : Option Ty :=
  match final.decorations.get? n.mark with
  | some (.type t) => some t
  | some (.variable ref) => (final.store.getVariable? ref).map Variable.type
  | some (.function ref) => (final.store.getFunction? ref).map Function.returns
  | none => none

/-- The type of the variable that a declaration or a parameter makes, and whether it is a
constant. -/
def cell? (final : State) : Origin → Option (Ty × Bool)
  | .declaration mark =>
    match final.decorations.get? mark with
    | some (.variable ref) =>
      (final.store.getVariable? ref).map fun v => (v.type, v.constant)
    | _ => none
  | .parameter method position =>
    match final.decorations.get? method with
    | some (.function ref) =>
      (final.store.getFunction? ref).bind fun g =>
        g.parameters[position]?.map fun t => (t, false)
    | _ => none

/-- The type that a method is to return. -/
def returns? (final : State) (m : Method) : Option Ty :=
  match final.decorations.get? m.mark with
  | some (.function ref) => (final.store.getFunction? ref).map Function.returns
  | _ => none

end Analysis.State

/-- The tree is a part of another, or all of it. -/
inductive Node.Below (root : Node) : Node → Prop
  | root : Below root root
  | child {n c : Node} (h : Below root n) (hc : c ∈ n.children) : Below root c

/-- A part of a tree is all of it or a part of a child. -/
lemma Node.Below.eq_or_child {root n : Node} (h : root.Below n) :
    n = root ∨ ∃ c ∈ root.children, c.Below n := by
  induction h with
  | root => exact .inl rfl
  | child _ hc ih =>
    rcases ih with rfl | ⟨d, hd, hbelow⟩
    · exact .inr ⟨_, hc, .root⟩
    · exact .inr ⟨d, hd, .child hbelow hc⟩

/-- The type that a method is declared to return, which is nil where none is named. -/
def Method.returns (m : Method) : Except NameError Ty :=
  m.returnType.elim (.ok .nil) Ty.ofName

/-- A name and what its variable is made for. -/
abbrev Binding := String × Origin

/-- The function of a name and arity among those known. -/
def named? (known : List Function) (name : String) (arity : Nat) : Option Function :=
  known.find? fun g => g.name == name && g.arity == arity

/-! ### Expressions -/

namespace Typing

variable (root : Node) (final : Analysis.State)

/-- The tree is a part of the program and analysis gave it the type. -/
structure Noted (n : Node) (t : Ty) : Prop where
  below : root.Below n
  type : final.typeOf? n = some t

/-- The expression has the type, with the functions and the variables given. -/
inductive HasType (known : List Function) (scope : List Binding) : Node → Ty → Prop
  | literal {m : Mark} {v : Value} {sort : String} {t : Ty} (hv : v.Denoted sort)
      (ht : Analysis.literalType? sort = some t)
      (hn : Noted root final (.literal m (.value v) sort) t) :
      HasType known scope (.literal m (.value v) sort) t
  | group {m : Mark} {e : Node} {t : Ty} (he : HasType known scope e t)
      (hn : Noted root final (.group m e) t) : HasType known scope (.group m e) t
  | binary {m : Mark} {operator : String} {left right : Node} {l r t : Ty}
      (hl : HasType known scope left l) (hr : HasType known scope right r)
      (ht : Analysis.operationType operator l r = .ok t)
      (hn : Noted root final (.binary m operator left right) t) :
      HasType known scope (.binary m operator left right) t
  | access {m : Mark} {name : String} {origin : Origin} {t : Ty} {constant : Bool}
      (ho : scope.lookup name = some origin) (hc : final.cell? origin = some (t, constant))
      (hn : Noted root final (.access m .absent name) t) :
      HasType known scope (.access m .absent name) t
  | call {m : Mark} {name : String} {es : List Node} {ts : List Ty} {g : Function}
      (hes : List.Forall₂ (HasType known scope) es ts) (hg : named? known name es.length = some g)
      (hts : List.Forall₂ (fun p t => Ty.accepts p t = true) g.parameters ts)
      (hn : Noted root final (.call m .absent name es) g.returns) :
      HasType known scope (.call m .absent name es) g.returns

/-- The value, if there is one, may stand where the type is declared. -/
def Fits (known : List Function) (scope : List Binding) (value : Node) (t : Ty) : Prop :=
  value = .absent ∨ ∃ s, HasType root final known scope value s ∧ t.accepts s = true

/-! ### Statements -/

/-- The bindings of a block with one more, which has a name of its own and makes a variable as
given. -/
structure Adds (block : List Binding) (name : String) (origin : Origin) (t : Ty) (constant : Bool) :
    Prop where
  fresh : name ∉ block.map Prod.fst
  cell : final.cell? origin = some (t, constant)

variable (known : List Function) (returns : Ty)

mutual

/-- The statement is typed between the bindings of its block before it and those after it, inside
the outer ones. -/
inductive Statement : List Binding → List Binding → Node → List Binding → Prop
  | perform {outer block : List Binding} {m : Mark} {e : Node} {t : Ty}
      (he : HasType root final known (block ++ outer) e t) :
      Statement outer block (.perform m e) block
  | declare {outer block : List Binding} {m : Mark} {name : String} {typeName : Option String}
      {value : Node} {t : Ty} (hv : Fits root final known (block ++ outer) value t)
      (ha : Adds final block name (.declaration m) t false) :
      Statement outer block (.declare m name typeName value) ((name, .declaration m) :: block)
  | assign {outer block : List Binding} {m a : Mark} {name : String} {value : Node}
      {origin : Origin} {s t : Ty} (ho : (block ++ outer).lookup name = some origin)
      (hc : final.cell? origin = some (t, false))
      (hv : HasType root final known (block ++ outer) value s) (ht : t.accepts s = true) :
      Statement outer block (.assign m (.access a .absent name) value) block
  | branch {outer block block₁ block₂ : List Binding} {m : Mark} {c : Node} {body other : List Node}
      (hc : HasType root final known (block ++ outer) c .boolean)
      (hb : Statements (block ++ outer) [] body block₁)
      (ho : Statements (block ++ outer) [] other block₂) :
      Statement outer block (.branch m c body other) block
  | forLoop {outer block clauses block₁ : List Binding} {m : Mark} {first c last : Node}
      {body : List Node}
      (hf : Statements (block ++ outer) [] ([first].filter Node.isPresent) clauses)
      (hc : HasType root final known (clauses ++ (block ++ outer)) c .boolean)
      (hl : Statements (block ++ outer) clauses ([last].filter Node.isPresent) clauses)
      (hb : Statements (clauses ++ (block ++ outer)) [] body block₁) :
      Statement outer block (.forLoop m first c last body) block
  | whileLoop {outer block block₁ : List Binding} {m : Mark} {c : Node} {body : List Node}
      (hc : HasType root final known (block ++ outer) c .boolean)
      (hb : Statements (block ++ outer) [] body block₁) :
      Statement outer block (.whileLoop m c body) block
  | giveBack {outer block : List Binding} {m : Mark} {value : Node} {t : Ty}
      (hv : HasType root final known (block ++ outer) value t) (ht : returns.accepts t = true) :
      Statement outer block (.giveBack m value) block

/-- Statements in a row are typed, each with the bindings that those before it leave. -/
inductive Statements : List Binding → List Binding → List Node → List Binding → Prop
  | nil {outer block : List Binding} : Statements outer block [] block
  | cons {outer block block₁ block₂ : List Binding} {n : Node} {ns : List Node}
      (h : Statement outer block n block₁) (hs : Statements outer block₁ ns block₂) :
      Statements outer block (n :: ns) block₂

end

/-! ### Programs -/

/-- The parameters from a position on, with their types, add their bindings to the block. -/
inductive Parameters (method : Mark) :
    Nat → List String → List Ty → List Binding → List Binding → Prop
  | nil {k : Nat} {block : List Binding} : Parameters method k [] [] block block
  | cons {k : Nat} {name : String} {names : List String} {t : Ty} {ts : List Ty}
      {block block₁ : List Binding} (ha : Adds final block name (.parameter method k) t false)
      (hs : Parameters method (k + 1) names ts ((name, .parameter method k) :: block) block₁) :
      Parameters method k (name :: names) (t :: ts) block block₁

/-- The method is typed as the function that it is to analysis. -/
structure MethodTyped (globals : List Binding) (m : Method) (g : Function) : Prop where
  below : root.Below m.toNode
  name : g.name = m.name
  declared : m.returns = .ok g.returns
  returns : final.returns? m = some g.returns
  body : ∃ block block₁, Parameters final m.mark 0 m.parameters g.parameters [] block ∧
    Statements root final known g.returns globals block m.body block₁

/-- Fields in a row are typed, each with the bindings that those before it leave. -/
inductive FieldsTyped : List Binding → List Field → List Binding → Prop
  | nil {globals : List Binding} : FieldsTyped globals [] globals
  | cons {globals globals₁ : List Binding} {f : Field} {fs : List Field} {t : Ty}
      (hv : Fits root final known globals f.value t)
      (ha : Adds final globals f.name (.declaration f.mark) t f.constant)
      (hs : FieldsTyped ((f.name, .declaration f.mark) :: globals) fs globals₁) :
      FieldsTyped globals (f :: fs) globals₁

/-- Methods in a row are typed. Each is known to itself and to those behind it. -/
inductive MethodsTyped (globals : List Binding) :
    List Function → List Method → List Function → Prop
  | nil {known : List Function} : MethodsTyped globals known [] known
  | cons {known known₁ : List Function} {m : Method} {ms : List Method} {g : Function}
      (hnew : named? known g.name g.arity = none)
      (h : MethodTyped root final (known ++ [g]) globals m g)
      (hs : MethodsTyped globals (known ++ [g]) ms known₁) :
      MethodsTyped globals known (m :: ms) known₁

/-- The program is typed: first its fields, then its methods with all fields, and its `main`
returns an integer. -/
structure ProgramTyped (p : Program) (globals : List Binding) (known : List Function) : Prop where
  fields : FieldsTyped p.toNode final [Analysis.printFunction] [] p.fields globals
  methods : MethodsTyped p.toNode final globals [Analysis.printFunction] p.methods known
  main : ∃ g, named? known "main" 0 = some g ∧ g.returns = .integer

end Typing

end LetDef
