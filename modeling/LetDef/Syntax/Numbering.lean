import LetDef.Syntax.Node

/-!
# Numbering

Gives every node of a tree a number of its own, counting in preorder.
-/

namespace LetDef

/-- The mark with another number. -/
def Mark.numbered (m : Mark) (k : Nat) : Mark :=
  { m with number := k }

namespace Node

/-- The tree with its nodes numbered from `k` on, and the next number. -/
def numberFrom (k : Nat) : Node → Node × Nat
  | .absent => (.absent, k)
  | .literal m value sort => (.literal (m.numbered k) value sort, k + 1)
  | .group m body =>
    let (body, next) := body.numberFrom (k + 1)
    (.group (m.numbered k) body, next)
  | .binary m operator left right =>
    let (left, next) := left.numberFrom (k + 1)
    let (right, next) := right.numberFrom next
    (.binary (m.numbered k) operator left right, next)
  | .access m receiver name =>
    let (receiver, next) := receiver.numberFrom (k + 1)
    (.access (m.numbered k) receiver name, next)
  | .call m receiver name arguments =>
    let (receiver, next) := receiver.numberFrom (k + 1)
    let (arguments, next) := all next arguments
    (.call (m.numbered k) receiver name arguments, next)
  | .perform m expression =>
    let (expression, next) := expression.numberFrom (k + 1)
    (.perform (m.numbered k) expression, next)
  | .declare m name typeName value =>
    let (value, next) := value.numberFrom (k + 1)
    (.declare (m.numbered k) name typeName value, next)
  | .assign m receiver value =>
    let (receiver, next) := receiver.numberFrom (k + 1)
    let (value, next) := value.numberFrom next
    (.assign (m.numbered k) receiver value, next)
  | .branch m condition thenBody elseBody =>
    let (condition, next) := condition.numberFrom (k + 1)
    let (thenBody, next) := all next thenBody
    let (elseBody, next) := all next elseBody
    (.branch (m.numbered k) condition thenBody elseBody, next)
  | .forLoop m initializer condition increment body =>
    let (initializer, next) := initializer.numberFrom (k + 1)
    let (condition, next) := condition.numberFrom next
    let (increment, next) := increment.numberFrom next
    let (body, next) := all next body
    (.forLoop (m.numbered k) initializer condition increment body, next)
  | .whileLoop m condition body =>
    let (condition, next) := condition.numberFrom (k + 1)
    let (body, next) := all next body
    (.whileLoop (m.numbered k) condition body, next)
  | .giveBack m value =>
    let (value, next) := value.numberFrom (k + 1)
    (.giveBack (m.numbered k) value, next)
  | .field m name typeName constant value =>
    let (value, next) := value.numberFrom (k + 1)
    (.field (m.numbered k) name typeName constant value, next)
  | .method m name parameters parameterTypes returnType body =>
    let (body, next) := all (k + 1) body
    (.method (m.numbered k) name parameters parameterTypes returnType body, next)
  | .program m fields methods =>
    let (fields, next) := all (k + 1) fields
    let (methods, next) := all next methods
    (.program (m.numbered k) fields methods, next)
where
  /-- Numbers several trees one after the other. -/
  all (k : Nat) : List Node → List Node × Nat
    | [] => ([], k)
    | n :: ns =>
      let (n, next) := n.numberFrom k
      let (ns, next) := all next ns
      (n :: ns, next)

/-- The tree with its nodes numbered. -/
def numbered (n : Node) : Node :=
  (n.numberFrom 0).1

end Node

end LetDef
