import LetDef.Syntax.Program

/-!
# Outlines

Two forms of a tree as text: an indented outline with one node a line, and a one-line form.
-/

namespace LetDef

/-- An optional name as source data. -/
def quotedName? : Option String → String
  | none => "None"
  | some name => Text.quote name

/-- Items in parentheses, with a comma behind a single one. -/
def tupleText : List String → String
  | [] => "()"
  | [item] => "(" ++ item ++ ",)"
  | items => "(" ++ ", ".intercalate items ++ ")"

namespace Node

/-! ### The outline -/

/-- Two blanks for each level of depth. -/
def indent (depth : Nat) : String :=
  String.ofList (List.replicate (2 * depth) ' ')

/-- The line of a node: its kind and its data. -/
def headLine (depth : Nat) (kind : Kind) (data : List String) : String :=
  indent depth ++ kind.name ++ "(" ++ ", ".intercalate data ++ ")"

/-- An absent part as data of its node. -/
def absence (label : String) (n : Node) : List String :=
  if n.isPresent then [] else [label ++ "=None"]

/-- The lines of the parts under a label; no parts, no label. -/
def labelled (depth : Nat) (label : String) : List String → List String
  | [] => []
  | lines => (indent (depth + 1) ++ label ++ ":") :: lines

/-- The names as data of a node; no names, no data. -/
def nameData (label : String) : List String → List String
  | [] => []
  | names => [label ++ "=" ++ tupleText (names.map Text.quote)]

/-- The outline of a tree at a depth, line by line; nothing for an absent one. -/
def outlineLines (depth : Nat) : Node → List String
  | .absent => []
  | .literal _ value sort =>
    [headLine depth .literal ["value=" ++ value.quoted, "literal_type=" ++ Text.quote sort]]
  | .group _ body =>
    headLine depth .group (absence "expression" body)
      :: labelled depth "expression" (body.outlineLines (depth + 2))
  | .binary _ operator left right =>
    headLine depth .binary
        (("operator=" ++ Text.quote operator) :: absence "left" left ++ absence "right" right)
      :: labelled depth "left" (left.outlineLines (depth + 2))
      ++ labelled depth "right" (right.outlineLines (depth + 2))
  | .access _ receiver name =>
    headLine depth .access (absence "receiver" receiver ++ ["name=" ++ Text.quote name])
      :: labelled depth "receiver" (receiver.outlineLines (depth + 2))
  | .call _ receiver name arguments =>
    headLine depth .call (absence "receiver" receiver ++ ["name=" ++ Text.quote name])
      :: labelled depth "receiver" (receiver.outlineLines (depth + 2))
      ++ labelled depth "arguments" (all (depth + 2) arguments)
  | .perform _ expression =>
    headLine depth .perform (absence "expression" expression)
      :: labelled depth "expression" (expression.outlineLines (depth + 2))
  | .declare _ name typeName value =>
    headLine depth .declare
        (["name=" ++ Text.quote name, "type_name=" ++ quotedName? typeName]
          ++ absence "value" value)
      :: labelled depth "value" (value.outlineLines (depth + 2))
  | .assign _ receiver value =>
    headLine depth .assign (absence "receiver" receiver ++ absence "value" value)
      :: labelled depth "receiver" (receiver.outlineLines (depth + 2))
      ++ labelled depth "value" (value.outlineLines (depth + 2))
  | .branch _ condition thenBody elseBody =>
    headLine depth .branch (absence "condition" condition)
      :: labelled depth "condition" (condition.outlineLines (depth + 2))
      ++ labelled depth "then_statements" (all (depth + 2) thenBody)
      ++ labelled depth "else_statements" (all (depth + 2) elseBody)
  | .forLoop _ initializer condition increment body =>
    headLine depth .forLoop
        (absence "initialization" initializer ++ absence "condition" condition
          ++ absence "increment" increment)
      :: labelled depth "initialization" (initializer.outlineLines (depth + 2))
      ++ labelled depth "condition" (condition.outlineLines (depth + 2))
      ++ labelled depth "increment" (increment.outlineLines (depth + 2))
      ++ labelled depth "statements" (all (depth + 2) body)
  | .whileLoop _ condition body =>
    headLine depth .whileLoop (absence "condition" condition)
      :: labelled depth "condition" (condition.outlineLines (depth + 2))
      ++ labelled depth "statements" (all (depth + 2) body)
  | .giveBack _ value =>
    headLine depth .giveBack (absence "value" value)
      :: labelled depth "value" (value.outlineLines (depth + 2))
  | .field _ name typeName constant value =>
    headLine depth .field
        (["name=" ++ Text.quote name, "type_name=" ++ quotedName? typeName,
            "is_constant=" ++ (Value.boolean constant).quoted]
          ++ absence "value" value)
      :: labelled depth "value" (value.outlineLines (depth + 2))
  | .method _ name parameters parameterTypes returnType body =>
    headLine depth .method
        (("name=" ++ Text.quote name) :: nameData "parameters" parameters
          ++ nameData "parameter_type_names" parameterTypes
          ++ ["return_type_name=" ++ quotedName? returnType])
      :: labelled depth "statements" (all (depth + 2) body)
  | .program _ fields methods =>
    headLine depth .program []
      :: labelled depth "fields" (all (depth + 2) fields)
      ++ labelled depth "methods" (all (depth + 2) methods)
where
  /-- The outlines of several trees one after the other. -/
  all (depth : Nat) : List Node → List String
    | [] => []
    | n :: ns => n.outlineLines depth ++ all depth ns

/-- The outline of a tree. -/
def outline (n : Node) : String :=
  "\n".intercalate (n.outlineLines 0)

/-! ### The one-line form -/

/-- A kind with its data in order. -/
def application (kind : Kind) (data : List (String × String)) : String :=
  kind.name ++ "(" ++ ", ".intercalate (data.map fun (label, text) => label ++ "=" ++ text) ++ ")"

/-- The tree in one line. -/
def oneLine : Node → String
  | .absent => "None"
  | .literal _ value sort =>
    application .literal [("value", value.quoted), ("literal_type", Text.quote sort)]
  | .group _ body => application .group [("expression", body.oneLine)]
  | .binary _ operator left right =>
    application .binary
      [("operator", Text.quote operator), ("left", left.oneLine), ("right", right.oneLine)]
  | .access _ receiver name =>
    application .access [("receiver", receiver.oneLine), ("name", Text.quote name)]
  | .call _ receiver name arguments =>
    application .call
      [("receiver", receiver.oneLine), ("name", Text.quote name),
       ("arguments", tupleText (all arguments))]
  | .perform _ expression => application .perform [("expression", expression.oneLine)]
  | .declare _ name typeName value =>
    application .declare
      [("name", Text.quote name), ("type_name", quotedName? typeName), ("value", value.oneLine)]
  | .assign _ receiver value =>
    application .assign [("receiver", receiver.oneLine), ("value", value.oneLine)]
  | .branch _ condition thenBody elseBody =>
    application .branch
      [("condition", condition.oneLine), ("then_statements", tupleText (all thenBody)),
       ("else_statements", tupleText (all elseBody))]
  | .forLoop _ initializer condition increment body =>
    application .forLoop
      [("initialization", initializer.oneLine), ("condition", condition.oneLine),
       ("increment", increment.oneLine), ("statements", tupleText (all body))]
  | .whileLoop _ condition body =>
    application .whileLoop
      [("condition", condition.oneLine), ("statements", tupleText (all body))]
  | .giveBack _ value => application .giveBack [("value", value.oneLine)]
  | .field _ name typeName constant value =>
    application .field
      [("name", Text.quote name), ("type_name", quotedName? typeName),
       ("is_constant", (Value.boolean constant).quoted), ("value", value.oneLine)]
  | .method _ name parameters parameterTypes returnType body =>
    application .method
      [("name", Text.quote name), ("parameters", tupleText (parameters.map Text.quote)),
       ("parameter_type_names", tupleText (parameterTypes.map Text.quote)),
       ("return_type_name", quotedName? returnType), ("statements", tupleText (all body))]
  | .program _ fields methods =>
    application .program
      [("fields", tupleText (all fields)), ("methods", tupleText (all methods))]
where
  /-- Several trees, each in one line. -/
  all : List Node → List String
    | [] => []
    | n :: ns => n.oneLine :: all ns

/-! ### Limits -/

/-- The most nested trees that have an outline. -/
def outlineNesting : Nat := 986

/-- The most nested trees that have a one-line form. -/
def oneLineNesting : Nat := 328

/-- The outline, unless the tree is nested too deeply. -/
def outline? (n : Node) : Option String :=
  if n.nesting ≤ outlineNesting then some n.outline else none

/-- The one-line form, unless the tree is nested too deeply. -/
def oneLine? (n : Node) : Option String :=
  if n.nesting ≤ oneLineNesting then some n.oneLine else none

end Node

end LetDef
