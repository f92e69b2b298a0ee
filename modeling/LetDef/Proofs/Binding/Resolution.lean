import LetDef.Proofs.Analysis.Program
import LetDef.Proofs.Position.Move
import LetDef.Proofs.Store.Chain
import LetDef.Proofs.Store.Keys

/-!
# Where decorations lead

A program is accepted among the names of a host. `Resolves` says what its decorations mean without
looking at a run. The name of a variable is decorated with the variable that analysis made for the
declaration or the parameter that binds it, or with the host's where nothing binds it. A call is
decorated with `print` or with one of the methods that stand above it or around it, or else with
what its name means to the host.
-/

namespace LetDef

open Execution (Origin)

/-- The keys of the functions that a program knows with some of its methods. -/
def Method.keys (known : List Method) : List (String × Nat) :=
  ("print", 1) :: known.map Method.key

/-- The tree defines a variable. -/
def Node.Defines (n : Node) : Prop :=
  n.kind? = some .field ∨ n.kind? = some .declare

/-! ### Accepted programs -/

/-- The frames of a host from the nearest outward. -/
def Scope.framesOf (host : Option Scope) : List FrameId :=
  (host.map Scope.chain).getD []

/-- The frame is a new one for the names of a program inside a host. It has no variables yet and one
function, `print`. -/
structure Store.Opened (s : Store) (host : Option Scope) (home : FrameId) (print : Function) :
    Prop where
  older : ∀ i ∈ Scope.framesOf host, i < home
  size : home < s.frames.size
  frame : s.frame home = ⟨[], [print]⟩

/-- A text that analysis accepts among the names of a host. -/
structure Accepted where
  /-- The scope of the host, if there is one. -/
  host : Option Scope
  /-- The store in which analysis begins. -/
  store : Store
  /-- The frame of the global scope of analysis. -/
  staticFrame : FrameId
  opened : store.Opened host staticFrame Analysis.printFunction
  file : String
  source : String
  parsed : Program
  text : Program.ofText file source = .ok parsed
  accepted : (outcome (Analysis.analyze Analysis.maxDepth ⟨staticFrame, Scope.framesOf host⟩ parsed)
    { store := store }).1 = .ok ()

namespace Accepted

variable (A : Accepted)

/-- The program that was analysed. -/
def program : Program :=
  A.parsed.numbered

/-- The frames of the host from the nearest outward. -/
def frames : List FrameId :=
  Scope.framesOf A.host

/-- The global scope of analysis. -/
def statics : Scope :=
  ⟨A.staticFrame, A.frames⟩

/-- The state in which analysis begins. -/
def initial : Analysis.State :=
  { store := A.store }

/-- The state in which analysis ends. -/
def final : Analysis.State :=
  (outcome (Analysis.analyze Analysis.maxDepth A.statics A.parsed) A.initial).2

/-- The frame that analysis enters for the method behind some others. -/
def entry (before : List Method) : FrameId :=
  (outcome (do
    A.program.fields.forM fun f => Analysis.field A.statics f Analysis.maxDepth
    before.forM fun m => Analysis.method A.statics m Analysis.maxDepth)
    A.initial).2.store.frames.size

/-- The variable is the one that analysis made for the origin. That of a field or a local variable
decorates its declaration, and that of a parameter is in the frame of its method. -/
inductive Denotes : Origin → VariableRef → Prop
  | declaration {n : Node} {ref : VariableRef} (hn : A.program.toNode.Below n)
      (hk : n.Defines)
      (hd : A.final.decorations.get? n.mark = some (.variable ref)) :
      Denotes (.declaration n.mark) ref
  | parameter {before after : List Method} {m : Method} {i : Nat} {name : String}
      (hm : A.program.methods = before ++ m :: after) (hi : m.parameters[i]? = some name) :
      Denotes (.parameter m.mark i) ⟨A.entry before, name⟩

/-- The variable is the one of the origin, and none of the host's. -/
def Stands (origin : Origin) (ref : VariableRef) : Prop :=
  ref.frame ∉ A.frames ∧ A.Denotes origin ref

lemma lt_statics {i : FrameId} (hi : i ∈ A.frames) : i < A.statics.frame :=
  A.opened.older i hi

end Accepted

/-! ### Places -/

/-- Where an expression or a statement of a program stands: in the value of a field, or in a method
with others above and below it. -/
inductive Place where
  | field (f : Field)
  | method (before : List Method) (m : Method) (after : List Method)

namespace Place

/-- The field or the method as a tree. -/
def node : Place → Node
  | field f => f.toNode
  | method _ m _ => m.toNode

/-- The methods that analysis knows there. -/
def known : Place → List Method
  | field _ => []
  | method before m _ => before ++ [m]

/-- The methods that are defined when a run gets there. -/
def defined : Place → List Method
  | field _ => []
  | method before m after => before ++ m :: after

/-- The place is one of the program. -/
def In (p : Program) : Place → Prop
  | field f => f ∈ p.fields
  | method before m after => p.methods = before ++ m :: after

end Place

lemma Node.Below.trans {root n c : Node} (h : root.Below n) (hc : n.Below c) : root.Below c := by
  induction hc with
  | root => exact h
  | child _ hmem ih => exact .child ih hmem

namespace Place

variable {p : Program} {place : Place} {n c : Node}

/-- The tree stands at a place of the program. -/
structure Holds (p : Program) (place : Place) (n : Node) : Prop where
  inside : place.In p
  below : place.node.Below n

lemma Holds.child (h : place.Holds p n) (hc : c ∈ n.children) : place.Holds p c :=
  ⟨h.inside, .child h.below hc⟩

/-- What stands at a place of a program is a part of it. -/
lemma Holds.program_below (h : place.Holds p n) : p.toNode.Below n := by
  refine Node.Below.trans ?_ h.below
  obtain ⟨h, _⟩ := h
  cases place with
  | field f => exact .child .root (List.mem_append_left _ (List.mem_map_of_mem h))
  | method before m after =>
    have hm : m ∈ p.methods := by
      rw [show p.methods = before ++ m :: after from h]
      simp
    exact .child .root (List.mem_append_right _ (List.mem_map_of_mem hm))

end Place

/-- The bindings behind a statement. -/
def Node.binds : Node → List Binding → List Binding
  | .declare mark name _ _, bs => (name, .declaration mark) :: bs
  | _, bs => bs

/-- What surrounds an expression or a statement: a place of the program with its bindings, or code
of the host, of which nothing is said. -/
inductive Surroundings where
  | foreign
  | within (place : Place) (bs : List Binding)

/-- What surrounds that which follows a statement. -/
def Surroundings.after : Surroundings → Node → Surroundings
  | foreign, _ => foreign
  | within place bs, n => within place (n.binds bs)

/-- The surroundings with one more binding. -/
def Surroundings.bind : Surroundings → String → Origin → Surroundings
  | foreign, _, _ => foreign
  | within place bs, name, origin => within place ((name, origin) :: bs)

/-! ### Resolution -/

namespace Accepted

variable (A : Accepted)

/-- The name is decorated with the variable of the origin that binds it, or with the host's where
nothing does. -/
def VariableLeads : Surroundings → Mark → String → Prop
  | .foreign, _, _ => True
  | .within _ bs, mark, name => ∃ ref, A.final.decorations.get? mark = some (.variable ref) ∧
      (∀ origin, bs.lookup name = some origin → A.Stands origin ref) ∧
      (bs.lookup name = none → A.store.variableRef? A.frames name = some ref)

/-- The call is decorated with the function of the program that is known there, or with the host's
where none is. -/
def CallLeads : Surroundings → Node → Mark → String → Nat → Prop
  | .foreign, _, _, _, _ => True
  | .within place _, n, mark, name, arity => place.Holds A.program n ∧
      ∃ ref, A.final.decorations.get? mark = some (.function ref) ∧
        ((name, arity) ∈ Method.keys place.known → ref = ⟨A.statics.frame, name, arity⟩) ∧
        ((name, arity) ∉ Method.keys place.known →
          ∃ g, A.store.functionIn? A.frames name arity = some (ref, g))

/-- The decorations of the tree lead to what its names mean there. -/
def Resolves : Node → Surroundings → Prop
  | .group _ body, around => Resolves body around
  | .binary _ _ left right, around => Resolves left around ∧ Resolves right around
  | .access mark receiver name, around =>
    (receiver = .absent → A.VariableLeads around mark name) ∧ Resolves receiver around
  | .call mark receiver name arguments, around =>
    (receiver = .absent →
      A.CallLeads around (.call mark receiver name arguments) mark name arguments.length) ∧
    Resolves receiver around ∧ all arguments around
  | .perform _ e, around => Resolves e around
  | .declare _ _ _ value, around => Resolves value around
  | .assign _ receiver value, around => Resolves receiver around ∧ Resolves value around
  | .branch _ c body other, around => Resolves c around ∧ block body around ∧ block other around
  | .forLoop _ first c last body, around =>
    Resolves first around ∧ Resolves c (around.after first) ∧
      Resolves last (around.after first) ∧ (around.after first).after last = around.after first ∧
      block body (around.after first)
  | .whileLoop _ c body, around => Resolves c around ∧ block body around
  | .giveBack _ value, around => Resolves value around
  | _, _ => True
where
  /-- The decorations of several trees lead to what their names mean at one place. -/
  all : List Node → Surroundings → Prop
    | [], _ => True
    | n :: ns, around => Resolves n around ∧ all ns around
  /-- The decorations of statements in a row lead to what their names mean. -/
  block : List Node → Surroundings → Prop
    | [], _ => True
    | n :: ns, around => Resolves n around ∧ block ns (around.after n)

variable {A}

lemma resolves_all_foreign {ns : List Node} (h : ∀ n ∈ ns, A.Resolves n .foreign) :
    Resolves.all A ns .foreign := by
  induction ns with
  | nil => trivial
  | cons n ns ih =>
    rw [List.forall_mem_cons] at h
    exact ⟨h.1, ih h.2⟩

lemma resolves_block_foreign {ns : List Node} (h : ∀ n ∈ ns, A.Resolves n .foreign) :
    Resolves.block A ns .foreign := by
  induction ns with
  | nil => trivial
  | cons n ns ih =>
    rw [List.forall_mem_cons] at h
    exact ⟨h.1, ih h.2⟩

/-- Nothing is said of code of the host. -/
lemma resolves_foreign (n : Node) : A.Resolves n .foreign := by
  induction n using Node.nestedInduction with
  | group _ _ ih => exact ih
  | binary _ _ _ _ ihl ihr => exact ⟨ihl, ihr⟩
  | access _ _ _ ih => exact ⟨fun _ => trivial, ih⟩
  | call _ _ _ _ ih ihs => exact ⟨fun _ => trivial, ih, resolves_all_foreign ihs⟩
  | perform _ _ ih => exact ih
  | declare _ _ _ _ ih => exact ih
  | assign _ _ _ ihr ihv => exact ⟨ihr, ihv⟩
  | branch _ _ _ _ ihc ihb iho =>
    exact ⟨ihc, resolves_block_foreign ihb, resolves_block_foreign iho⟩
  | forLoop _ _ _ _ _ ihf ihc ihl ihb => exact ⟨ihf, ihc, ihl, rfl, resolves_block_foreign ihb⟩
  | whileLoop _ _ _ ihc ihb => exact ⟨ihc, resolves_block_foreign ihb⟩
  | giveBack _ _ ih => exact ih
  | _ => trivial

end Accepted

/-! ### Bindings of a program -/

/-- The binding of a field. -/
def Field.binding (f : Field) : Binding :=
  (f.name, .declaration f.mark)

/-- The bindings behind some fields. -/
def Field.bindings (fs : List Field) : List Binding :=
  (fs.map Field.binding).reverse

/-- The bindings behind the parameters of a method from a position on. -/
def Method.parameterBindings (m : Method) : Nat → List String → List Binding → List Binding
  | _, [], bs => bs
  | k, name :: names, bs =>
    m.parameterBindings (k + 1) names ((name, .parameter m.mark k) :: bs)

/-- The bindings at the beginning of the body of a method. -/
def Program.bindings (p : Program) (m : Method) : List Binding :=
  m.parameterBindings 0 m.parameters (Field.bindings p.fields)

lemma Field.bindings_append (fs : List Field) (f : Field) :
    Field.bindings (fs ++ [f]) = f.binding :: Field.bindings fs := by
  simp [Field.bindings]

/-- The decorations of a whole program lead to what its names mean. -/
structure Accepted.Resolved (A : Accepted) : Prop where
  fields : ∀ before f after, A.program.fields = before ++ f :: after →
    A.Resolves f.value (.within (.field f) (Field.bindings before))
  methods : ∀ before m after, A.program.methods = before ++ m :: after →
    Accepted.Resolves.block A m.body (.within (.method before m after) (A.program.bindings m))
  keys : (Method.keys A.program.methods).Nodup
  decorated : ∀ m ∈ A.program.methods, A.final.decorations.get? m.mark
    = some (.function ⟨A.statics.frame, m.name, m.parameters.length⟩)

end LetDef
