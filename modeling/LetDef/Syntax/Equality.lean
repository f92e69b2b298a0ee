import LetDef.Syntax.Program

/-!
# Equality of trees

Two trees are the same when they have the same kinds, names and data all the way down. Marks do
not count, and literal data compare as data: `1`, `1.0` and true agree.
-/

namespace LetDef.Node

/-- Whether two trees are the same. -/
def same : Node → Node → Bool
  | .absent, .absent => true
  | .literal _ value sort, .literal _ value' sort' => value.agrees value' && sort == sort'
  | .group _ body, .group _ body' => body.same body'
  | .binary _ operator left right, .binary _ operator' left' right' =>
    operator == operator' && left.same left' && right.same right'
  | .access _ receiver name, .access _ receiver' name' => receiver.same receiver' && name == name'
  | .call _ receiver name arguments, .call _ receiver' name' arguments' =>
    receiver.same receiver' && name == name' && all arguments arguments'
  | .perform _ expression, .perform _ expression' => expression.same expression'
  | .declare _ name typeName value, .declare _ name' typeName' value' =>
    name == name' && typeName == typeName' && value.same value'
  | .assign _ receiver value, .assign _ receiver' value' =>
    receiver.same receiver' && value.same value'
  | .branch _ condition thenBody elseBody, .branch _ condition' thenBody' elseBody' =>
    condition.same condition' && all thenBody thenBody' && all elseBody elseBody'
  | .forLoop _ initializer condition increment body,
    .forLoop _ initializer' condition' increment' body' =>
    initializer.same initializer' && condition.same condition' && increment.same increment'
      && all body body'
  | .whileLoop _ condition body, .whileLoop _ condition' body' =>
    condition.same condition' && all body body'
  | .giveBack _ value, .giveBack _ value' => value.same value'
  | .field _ name typeName constant value, .field _ name' typeName' constant' value' =>
    name == name' && typeName == typeName' && constant == constant' && value.same value'
  | .method _ name parameters parameterTypes returnType body,
    .method _ name' parameters' parameterTypes' returnType' body' =>
    name == name' && parameters == parameters' && parameterTypes == parameterTypes'
      && returnType == returnType' && all body body'
  | .program _ fields methods, .program _ fields' methods' =>
    all fields fields' && all methods methods'
  | _, _ => false
where
  /-- Whether two lists of trees are the same, tree by tree. -/
  all : List Node → List Node → Bool
    | [], [] => true
    | n :: ns, n' :: ns' => n.same n' && all ns ns'
    | _, _ => false

/-- The most nested trees that are compared. -/
def comparableNesting : Nat := 328

/-- Whether two trees are the same, unless both are nested too deeply to compare. -/
def same? (a b : Node) : Option Bool :=
  if a.nesting ≤ comparableNesting || b.nesting ≤ comparableNesting then some (a.same b) else none

end LetDef.Node
