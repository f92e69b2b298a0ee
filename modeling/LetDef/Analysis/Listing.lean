import LetDef.Analysis.Basic

/-!
# Listings of analysed trees

One row for each node, with what analysis found out about it so far.
-/

namespace LetDef.Analysis

/-- A row of a listing. An absent node has neither kind nor slots. -/
structure Row where
  depth : Nat
  kind : Option Node.Kind
  position : Option Position
  slots : List String
deriving DecidableEq, Repr

/-- What stands in a slot that has not been filled. -/
def emptySlot (kind : Node.Kind) : String :=
  "DecorationError: " ++ kind.name ++ " has not been analyzed yet"

/-- The number of slots of a kind of node. -/
def slotCount : Node.Kind → Nat
  | .literal | .group | .binary | .field | .declare | .method => 1
  | .access | .call => 2
  | _ => 0

/-- The texts of the slots that a decoration fills: what a name stands for, and its type where the
node is an expression. -/
def decorationTexts (store : Store) (isExpression : Bool) : Decoration → List String
  | .type t => [t.name]
  | .variable ref =>
    match store.getVariable? ref with
    | some v => if isExpression then [v.text, v.type.name] else [v.text]
    | none => []
  | .function ref =>
    match store.getFunction? ref with
    | some g => if isExpression then [g.text, g.returns.name] else [g.text]
    | none => []

/-- The slots of a node. -/
def slotTexts (state : State) (kind : Node.Kind) (mark : Mark) : List String :=
  match slotCount kind, state.decorations.get? mark with
  | 0, _ => []
  | count, none => List.replicate count (emptySlot kind)
  | count, some decoration => decorationTexts state.store (count = 2) decoration

/-- The row of a node. -/
def row (state : State) (depth : Nat) (n : Node) : Row :=
  match n.kind? with
  | none => ⟨depth, none, none, []⟩
  | some kind => ⟨depth, some kind, n.mark.position, slotTexts state kind n.mark⟩

/-- The listing of a program. -/
def listing (state : State) (p : Program) : List Row :=
  p.numbered.toNode.preorder.map fun (depth, n) => row state depth n

end LetDef.Analysis
