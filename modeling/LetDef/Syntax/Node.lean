import LetDef.Position
import LetDef.Value

/-!
# Syntax trees

One type of tree serves expressions, statements and declarations, because a host may build trees
that no text denotes: a statement where an expression belongs, or nothing at all. Which trees are
programs is for analysis and execution to say.
-/

namespace LetDef

/-- What a node carries beside its structure: its place, if it came from a text, and its number in
the tree. -/
structure Mark where
  position : Option Position := none
  number : Nat := 0
deriving DecidableEq, Repr

/-- A syntax tree. `absent` stands for an omitted part. -/
inductive Node where
  | absent
  | literal (mark : Mark) (value : Datum) (sort : String)
  | group (mark : Mark) (body : Node)
  | binary (mark : Mark) (operator : String) (left right : Node)
  | access (mark : Mark) (receiver : Node) (name : String)
  | call (mark : Mark) (receiver : Node) (name : String) (arguments : List Node)
  | perform (mark : Mark) (expression : Node)
  | declare (mark : Mark) (name : String) (typeName : Option String) (value : Node)
  | assign (mark : Mark) (receiver value : Node)
  | branch (mark : Mark) (condition : Node) (thenBody elseBody : List Node)
  | forLoop (mark : Mark) (initializer condition increment : Node) (body : List Node)
  | whileLoop (mark : Mark) (condition : Node) (body : List Node)
  | giveBack (mark : Mark) (value : Node)
  | field (mark : Mark) (name : String) (typeName : Option String) (constant : Bool)
      (value : Node)
  | method (mark : Mark) (name : String) (parameters parameterTypes : List String)
      (returnType : Option String) (body : List Node)
  | program (mark : Mark) (fields methods : List Node)
deriving Repr, Inhabited

namespace Node

/-! ### Kinds and places -/

/-- The kinds of node. -/
inductive Kind where
  | literal | group | binary | access | call
  | perform | declare | assign | branch | forLoop | whileLoop | giveBack
  | field | method | program
deriving DecidableEq, Repr

/-- The name of a kind in messages and listings. -/
def Kind.name : Kind → String
  | .literal => "Literal"
  | .group => "Group"
  | .binary => "BinaryOp"
  | .access => "Access"
  | .call => "FunctionCall"
  | .perform => "ExpressionStatement"
  | .declare => "Declaration"
  | .assign => "Assignment"
  | .branch => "IfStatement"
  | .forLoop => "ForLoop"
  | .whileLoop => "WhileLoop"
  | .giveBack => "ReturnStatement"
  | .field => "Field"
  | .method => "Method"
  | .program => "Source"

/-- The kind of a node that is present. -/
def kind? : Node → Option Kind
  | .absent => none
  | .literal .. => some .literal
  | .group .. => some .group
  | .binary .. => some .binary
  | .access .. => some .access
  | .call .. => some .call
  | .perform .. => some .perform
  | .declare .. => some .declare
  | .assign .. => some .assign
  | .branch .. => some .branch
  | .forLoop .. => some .forLoop
  | .whileLoop .. => some .whileLoop
  | .giveBack .. => some .giveBack
  | .field .. => some .field
  | .method .. => some .method
  | .program .. => some .program

/-- The name of a node's kind, also for an absent node. -/
def kindName (n : Node) : String :=
  (n.kind?.map Kind.name).getD "NoneType"

/-- The mark of a node. -/
def mark : Node → Mark
  | .absent => {}
  | .literal m .. => m
  | .group m .. => m
  | .binary m .. => m
  | .access m .. => m
  | .call m .. => m
  | .perform m .. => m
  | .declare m .. => m
  | .assign m .. => m
  | .branch m .. => m
  | .forLoop m .. => m
  | .whileLoop m .. => m
  | .giveBack m .. => m
  | .field m .. => m
  | .method m .. => m
  | .program m .. => m

/-- Whether the node is present. -/
def isPresent : Node → Bool
  | .absent => false
  | _ => true

end Node

/-- What a fault points at: the kind of node, if there is one, and its place in the text. -/
structure Site where
  kind : Option Node.Kind
  position : Option Position
deriving DecidableEq, Repr

namespace Node

/-- The node as something to point at. -/
def site (n : Node) : Site :=
  ⟨n.kind?, n.mark.position⟩

/-! ### Traversal -/

/-- The parts of a node in order. Parts that may be omitted count only when present. -/
def children : Node → List Node
  | .absent => []
  | .literal .. => []
  | .group _ body => [body]
  | .binary _ _ left right => [left, right]
  | .access _ receiver _ => [receiver].filter isPresent
  | .call _ receiver _ arguments => [receiver].filter isPresent ++ arguments
  | .perform _ expression => [expression]
  | .declare _ _ _ value => [value].filter isPresent
  | .assign _ receiver value => [receiver, value]
  | .branch _ condition thenBody elseBody => condition :: thenBody ++ elseBody
  | .forLoop _ initializer condition increment body =>
    [initializer, condition, increment].filter isPresent ++ body
  | .whileLoop _ condition body => condition :: body
  | .giveBack _ value => [value]
  | .field _ _ _ _ value => [value].filter isPresent
  | .method _ _ _ _ _ body => body
  | .program _ fields methods => fields ++ methods

/-- What `f` makes of a part that may be omitted: nothing if it is. -/
def optional {α : Type} (n : Node) (f : α → α) (rest : α) : α :=
  if n.isPresent then f rest else rest

/-- The node and all below it, each after those it is a part of and with its depth, in front of
`rest`. -/
def listFrom (depth : Nat) (n : Node) (rest : List (Nat × Node)) : List (Nat × Node) :=
  match n with
  | .absent => (depth, n) :: rest
  | .literal .. => (depth, n) :: rest
  | .group _ body => (depth, n) :: body.listFrom (depth + 1) rest
  | .binary _ _ left right =>
    (depth, n) :: left.listFrom (depth + 1) (right.listFrom (depth + 1) rest)
  | .access _ receiver _ => (depth, n) :: optional receiver (receiver.listFrom (depth + 1)) rest
  | .call _ receiver _ arguments =>
    (depth, n) :: optional receiver (receiver.listFrom (depth + 1))
      (all (depth + 1) arguments rest)
  | .perform _ expression => (depth, n) :: expression.listFrom (depth + 1) rest
  | .declare _ _ _ value => (depth, n) :: optional value (value.listFrom (depth + 1)) rest
  | .assign _ receiver value =>
    (depth, n) :: receiver.listFrom (depth + 1) (value.listFrom (depth + 1) rest)
  | .branch _ condition thenBody elseBody =>
    (depth, n) :: condition.listFrom (depth + 1)
      (all (depth + 1) thenBody (all (depth + 1) elseBody rest))
  | .forLoop _ initializer condition increment body =>
    (depth, n) :: optional initializer (initializer.listFrom (depth + 1))
      (optional condition (condition.listFrom (depth + 1))
        (optional increment (increment.listFrom (depth + 1)) (all (depth + 1) body rest)))
  | .whileLoop _ condition body =>
    (depth, n) :: condition.listFrom (depth + 1) (all (depth + 1) body rest)
  | .giveBack _ value => (depth, n) :: value.listFrom (depth + 1) rest
  | .field _ _ _ _ value => (depth, n) :: optional value (value.listFrom (depth + 1)) rest
  | .method _ _ _ _ _ body => (depth, n) :: all (depth + 1) body rest
  | .program _ fields methods =>
    (depth, n) :: all (depth + 1) fields (all (depth + 1) methods rest)
where
  /-- The listing of several parts. -/
  all (depth : Nat) (ns : List Node) (rest : List (Nat × Node)) : List (Nat × Node) :=
    match ns with
    | [] => rest
    | n :: ns => n.listFrom depth (all depth ns rest)

/-- The node and all below it in preorder, each with its depth. -/
def preorder (n : Node) : List (Nat × Node) :=
  n.listFrom 0 []

/-- The number of nodes on the longest way down. -/
def nesting (n : Node) : Nat :=
  n.preorder.foldl (fun deepest entry => max deepest (entry.1 + 1)) 0

end Node

end LetDef
