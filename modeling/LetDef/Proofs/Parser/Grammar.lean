import LetDef.Proofs.Parser.Yields
import LetDef.Proofs.Token.Shape

/-!
# The grammar

The rules of the grammar as relations between tokens and the trees that they stand for. Every rule
is there for any choice of the tokens that are names: all identifiers, or those that are not
keywords. A word or sign of the grammar is a token with its text.

    Source         := Field* Method*
    Field          := LET [CONST] ID [':' ID] ['=' Expr] ';'
    Method         := DEF ID '(' (ID [':' ID] (',' ID [':' ID])*)? ')' [':' ID] DO Stmt* END
    Stmt           := LET ID [':' ID] ['=' Expr] ';'
                    | IF Expr DO Stmt* (ELSE Stmt*)? END
                    | FOR '(' (Decl|Assign)? ';' Expr? ';' Assign? ')' DO Stmt* END
                    | WHILE Expr DO Stmt* END
                    | RETURN Expr ';'
                    | Expr ('=' Expr)? ';'
    Logical        := Comparison (('&&'|'||') Comparison)*
    Comparison     := Additive (('<'|'<='|'>'|'>='|'=='|'!=') Additive)*
    Additive       := Multiplicative (('+'|'-') Multiplicative)*
    Multiplicative := Secondary (('*'|'/') Secondary)*
    Secondary      := Primary ('.' ID (('(' Args? ')')|ε))*
    Primary        := NIL|TRUE|FALSE|INT|DEC|CHAR|STRING|'(' Expr ')'|ID (('(' Args? ')')|ε)
-/

namespace LetDef.Grammar

open LetDef.Parser (Level markOf firstMark)

/-- Any identifier. -/
def IsIdentifier (t : Token) : Prop := t.kind = .identifier

/-- An identifier that is not a keyword. -/
def IsName (t : Token) : Prop := t.kind = .identifier ∧ t.lexeme ∉ keywords

lemma IsName.isIdentifier {t : Token} (h : IsName t) : IsIdentifier t := h.1

/-! ### Expressions -/

/-- The number of a sign part and digits. -/
def signedNumber (sign ds : List Char) : Int :=
  if sign = ['-'] then -(Number.ofDigits ds : Int) else Number.ofDigits ds

/-- The literal that a token is. -/
inductive Literal (t : Token) : Value → String → Prop
  | nil (h : t.lexeme = "NIL") : Literal t .nil "nil"
  | yes (h : t.lexeme = "TRUE") : Literal t (.boolean true) "boolean"
  | no (h : t.lexeme = "FALSE") : Literal t (.boolean false) "boolean"
  | integer {sign ds : List Char} (hk : t.kind = .integer) (ht : t.lexeme.toList = sign ++ ds)
      (hs : Token.SignPart sign) (hd : Token.WholePart ds) :
      Literal t (.integer (signedNumber sign ds)) "integer"
  | decimal {sign ds fs : List Char} (hk : t.kind = .decimal)
      (ht : t.lexeme.toList = sign ++ ds ++ '.' :: fs) (hs : Token.SignPart sign)
      (hd : Token.WholePart ds) (hf : Token.FractionPart fs) :
      Literal t (.decimal ⟨sign = ['-'], Number.ofDigits (ds ++ fs), -fs.length⟩) "decimal"
  | character {body : List Char} {c : Char} (hk : t.kind = .character)
      (ht : t.lexeme.toList = '\'' :: body ++ ['\'']) (h : Token.Spells '\'' body [c]) :
      Literal t (.text c.toString) "character"
  | string {body cs : List Char} (hk : t.kind = .string)
      (ht : t.lexeme.toList = '"' :: body ++ ['"']) (h : Token.Spells '"' body cs) :
      Literal t (.text (String.ofList cs)) "string"

variable (name : Token → Prop)

mutual

/-- An expression. -/
inductive Expression : List Token → Node → Prop
  | logical {ts : List Token} {e : Node} (h : Operation .logical ts e) : Expression ts e

/-- Operands of a level with its operators between them, grouped to the left. -/
inductive Operation : Level → List Token → Node → Prop
  | operand {level : Level} {ts : List Token} {e : Node} (h : Operand level ts e) :
      Operation level ts e
  | binary {level : Level} {ts us : List Token} {op : Token} {left right : Node}
      (hl : Operation level ts left) (ho : op.lexeme ∈ level.operators)
      (hr : Operand level us right) :
      Operation level (ts ++ op :: us)
        (.binary { position := left.mark.position } op.lexeme left right)

/-- An operand of a level. -/
inductive Operand : Level → List Token → Node → Prop
  | tighter {level next : Level} {ts : List Token} {e : Node} (hn : level.tighter? = some next)
      (h : Operation next ts e) : Operand level ts e
  | secondary {level : Level} {ts : List Token} {e : Node} (hn : level.tighter? = none)
      (h : Secondary ts e) : Operand level ts e

/-- An expression without binary operators. -/
inductive Secondary : List Token → Node → Prop
  | primary {ts : List Token} {e : Node} (h : Primary ts e) : Secondary ts e
  | access {ts : List Token} {e : Node} {point t : Token} (h : Secondary ts e)
      (hp : point.lexeme = ".") (ht : name t) :
      Secondary (ts ++ [point, t]) (.access (markOf t) e t.lexeme)
  | call {ts us : List Token} {e : Node} {es : List Node} {point t left right : Token}
      (h : Secondary ts e) (hp : point.lexeme = ".") (ht : name t) (hl : left.lexeme = "(")
      (hs : Arguments us es) (hr : right.lexeme = ")") :
      Secondary (ts ++ point :: t :: left :: us ++ [right]) (.call (markOf t) e t.lexeme es)

/-- A literal, a group, a variable or a call. -/
inductive Primary : List Token → Node → Prop
  | literal {t : Token} {v : Value} {sort : String} (h : Literal t v sort) :
      Primary [t] (.literal (markOf t) (.value v) sort)
  | group {ts : List Token} {e : Node} {left right : Token} (hl : left.lexeme = "(")
      (h : Expression ts e) (hr : right.lexeme = ")") :
      Primary (left :: ts ++ [right]) (.group (markOf left) e)
  | access {t : Token} (ht : name t) : Primary [t] (.access (markOf t) .absent t.lexeme)
  | call {us : List Token} {es : List Node} {t left right : Token} (ht : name t)
      (hl : left.lexeme = "(") (hs : Arguments us es) (hr : right.lexeme = ")") :
      Primary (t :: left :: us ++ [right]) (.call (markOf t) .absent t.lexeme es)

/-- Arguments, if there are any. -/
inductive Arguments : List Token → List Node → Prop
  | none : Arguments [] []
  | some {ts : List Token} {es : List Node} (h : ArgumentList ts es) : Arguments ts es

/-- Arguments with commas between them. -/
inductive ArgumentList : List Token → List Node → Prop
  | one {ts : List Token} {e : Node} (h : Expression ts e) : ArgumentList ts [e]
  | more {ts us : List Token} {e : Node} {es : List Node} {comma : Token} (h : Expression ts e)
      (hc : comma.lexeme = ",") (hs : ArgumentList us es) :
      ArgumentList (ts ++ comma :: us) (e :: es)

end

section

variable {name}

lemma Secondary.ne_nil {ts : List Token} {e : Node} (h : Secondary name ts e) : ts ≠ [] := by
  cases h with
  | primary h => cases h <;> simp
  | access h hp ht => simp
  | call h hp ht hl hs hr => simp

mutual

lemma Operation.ne_nil {level : Level} {ts : List Token} {e : Node} :
    Operation name level ts e → ts ≠ []
  | .operand h => h.ne_nil
  | .binary _ _ _ => by simp

lemma Operand.ne_nil {level : Level} {ts : List Token} {e : Node} :
    Operand name level ts e → ts ≠ []
  | .tighter _ h => h.ne_nil
  | .secondary _ h => h.ne_nil

end

/-- An expression is made of at least one token. -/
lemma Expression.ne_nil {ts : List Token} {e : Node} : Expression name ts e → ts ≠ []
  | .logical h => h.ne_nil

end

/-! ### Statements -/

/-- The type of a declaration, if it has one. -/
inductive TypePart : List Token → Option String → Prop
  | none : TypePart [] none
  | some {colon t : Token} (hc : colon.lexeme = ":") (ht : name t) :
      TypePart [colon, t] (some t.lexeme)

/-- The value of a declaration, if it has one. -/
inductive ValuePart : List Token → Node → Prop
  | none : ValuePart [] .absent
  | some {ts : List Token} {e : Node} {equals : Token} (he : equals.lexeme = "=")
      (h : Expression name ts e) : ValuePart (equals :: ts) e

/-- A declaration without its semicolon. -/
inductive Declaration : List Token → Node → Prop
  | mk {ts us : List Token} {typeName : Option String} {value : Node} {word t : Token}
      (hw : word.lexeme = "LET") (ht : name t) (hty : TypePart name ts typeName)
      (hv : ValuePart name us value) :
      Declaration (word :: t :: ts ++ us) (.declare (markOf word) t.lexeme typeName value)

/-- An assignment without its semicolon. -/
inductive Assignment : List Token → Node → Node → Prop
  | mk {ts us : List Token} {receiver value : Node} {equals : Token}
      (hr : Expression name ts receiver) (he : equals.lexeme = "=")
      (hv : Expression name us value) : Assignment (ts ++ equals :: us) receiver value

/-- The first clause of a FOR loop. -/
inductive Initializer : List Token → Node → Prop
  | none : Initializer [] .absent
  | declaration {ts : List Token} {n : Node} (h : Declaration name ts n) : Initializer ts n
  | assignment {ts : List Token} {receiver value : Node} (h : Assignment name ts receiver value) :
      Initializer ts (.assign (firstMark ts) receiver value)

/-- The second clause of a FOR loop. -/
inductive Condition : List Token → Node → Prop
  | none : Condition [] .absent
  | some {ts : List Token} {e : Node} (h : Expression name ts e) : Condition ts e

/-- The last clause of a FOR loop, which assigns to an access or a call. -/
inductive Increment : List Token → Node → Prop
  | none : Increment [] .absent
  | some {ts : List Token} {receiver value : Node} (h : Assignment name ts receiver value)
      (ht : Parser.isIncrementTarget receiver = true) :
      Increment ts (.assign (firstMark ts) receiver value)

mutual

/-- A statement. -/
inductive Statement : List Token → Node → Prop
  | declaration {ts : List Token} {n : Node} {semicolon : Token} (h : Declaration name ts n)
      (hs : semicolon.lexeme = ";") : Statement (ts ++ [semicolon]) n
  | assignment {ts : List Token} {receiver value : Node} {semicolon : Token}
      (h : Assignment name ts receiver value) (hs : semicolon.lexeme = ";") :
      Statement (ts ++ [semicolon]) (.assign (firstMark ts) receiver value)
  | perform {ts : List Token} {e : Node} {semicolon : Token} (h : Expression name ts e)
      (hs : semicolon.lexeme = ";") : Statement (ts ++ [semicolon]) (.perform (firstMark ts) e)
  | branch {ts us : List Token} {c : Node} {body : List Node} {word opening closing : Token}
      (hw : word.lexeme = "IF") (hc : Expression name ts c) (ho : opening.lexeme = "DO")
      (hb : Statements us body) (he : closing.lexeme = "END") :
      Statement (word :: ts ++ opening :: us ++ [closing]) (.branch (markOf word) c body [])
  | branchElse {ts us vs : List Token} {c : Node} {body other : List Node}
      {word opening middle closing : Token} (hw : word.lexeme = "IF") (hc : Expression name ts c)
      (ho : opening.lexeme = "DO") (hb : Statements us body) (hm : middle.lexeme = "ELSE")
      (hb' : Statements vs other) (he : closing.lexeme = "END") :
      Statement (word :: ts ++ opening :: us ++ middle :: vs ++ [closing])
        (.branch (markOf word) c body other)
  | forLoop {ts us vs ws : List Token} {first c last : Node} {body : List Node}
      {word left semicolon semicolon' right opening closing : Token} (hw : word.lexeme = "FOR")
      (hl : left.lexeme = "(") (hi : Initializer name ts first) (hs : semicolon.lexeme = ";")
      (hc : Condition name us c) (hs' : semicolon'.lexeme = ";") (hn : Increment name vs last)
      (hr : right.lexeme = ")") (ho : opening.lexeme = "DO") (hb : Statements ws body)
      (he : closing.lexeme = "END") :
      Statement (word :: left :: ts ++ semicolon :: us ++ semicolon' :: vs ++
        right :: opening :: ws ++ [closing]) (.forLoop (markOf word) first c last body)
  | whileLoop {ts us : List Token} {c : Node} {body : List Node} {word opening closing : Token}
      (hw : word.lexeme = "WHILE") (hc : Expression name ts c) (ho : opening.lexeme = "DO")
      (hb : Statements us body) (he : closing.lexeme = "END") :
      Statement (word :: ts ++ opening :: us ++ [closing]) (.whileLoop (markOf word) c body)
  | giveBack {ts : List Token} {e : Node} {word semicolon : Token} (hw : word.lexeme = "RETURN")
      (h : Expression name ts e) (hs : semicolon.lexeme = ";") :
      Statement (word :: ts ++ [semicolon]) (.giveBack (markOf word) e)

/-- Statements one after the other. -/
inductive Statements : List Token → List Node → Prop
  | nil : Statements [] []
  | cons {ts us : List Token} {n : Node} {ns : List Node} (h : Statement ts n)
      (hs : Statements us ns) : Statements (ts ++ us) (n :: ns)

end

lemma Statement.length_pos {name : Token → Prop} {ts : List Token} {n : Node}
    (h : Statement name ts n) : 0 < ts.length := by
  cases h <;> simp

/-! ### Programs -/

/-- A field. -/
inductive FieldRule : List Token → Field → Prop
  | changeable {ts us : List Token} {typeName : Option String} {value : Node}
      {word t semicolon : Token} (hw : word.lexeme = "LET") (ht : name t)
      (hty : TypePart name ts typeName) (hv : ValuePart name us value)
      (hs : semicolon.lexeme = ";") :
      FieldRule (word :: t :: ts ++ us ++ [semicolon])
        ⟨markOf word, t.lexeme, typeName, false, value⟩
  | constant {ts us : List Token} {typeName : Option String} {value : Node}
      {word word' t semicolon : Token} (hw : word.lexeme = "LET") (hw' : word'.lexeme = "CONST")
      (ht : name t) (hty : TypePart name ts typeName) (hv : ValuePart name us value)
      (hs : semicolon.lexeme = ";") :
      FieldRule (word :: word' :: t :: ts ++ us ++ [semicolon])
        ⟨markOf word, t.lexeme, typeName, true, value⟩

/-- A parameter with the name of its type, which is `Any` unless given. -/
inductive Parameter : List Token → String × String → Prop
  | mk {ts : List Token} {typeName : Option String} {t : Token} (ht : name t)
      (hty : TypePart name ts typeName) : Parameter (t :: ts) (t.lexeme, typeName.getD "Any")

/-- Parameters with commas between them. -/
inductive ParameterList : List Token → List (String × String) → Prop
  | one {ts : List Token} {p : String × String} (h : Parameter name ts p) : ParameterList ts [p]
  | more {ts us : List Token} {p : String × String} {ps : List (String × String)} {comma : Token}
      (h : Parameter name ts p) (hc : comma.lexeme = ",") (hs : ParameterList us ps) :
      ParameterList (ts ++ comma :: us) (p :: ps)

/-- Parameters, if there are any. -/
inductive Parameters : List Token → List (String × String) → Prop
  | none : Parameters [] []
  | some {ts : List Token} {ps : List (String × String)} (h : ParameterList name ts ps) :
      Parameters ts ps

/-- A method. -/
inductive MethodRule : List Token → Method → Prop
  | mk {ts us vs : List Token} {ps : List (String × String)} {returns : Option String}
      {body : List Node} {word t left right opening closing : Token} (hw : word.lexeme = "DEF")
      (ht : name t) (hl : left.lexeme = "(") (hp : Parameters name ts ps)
      (hr : right.lexeme = ")") (hty : TypePart name us returns) (ho : opening.lexeme = "DO")
      (hb : Statements name vs body) (he : closing.lexeme = "END") :
      MethodRule (word :: t :: left :: ts ++ right :: us ++ opening :: vs ++ [closing])
        ⟨markOf word, t.lexeme, ps.map (·.1), ps.map (·.2), returns, body⟩

/-- Items of a rule one after the other. -/
inductive Many {α : Type} (rule : List Token → α → Prop) : List Token → List α → Prop
  | nil : Many rule [] []
  | cons {ts us : List Token} {a : α} {as : List α} (h : rule ts a) (hs : Many rule us as) :
      Many rule (ts ++ us) (a :: as)

/-- A program. -/
inductive Source : List Token → Program → Prop
  | mk {ts us : List Token} {fields : List Field} {methods : List Method}
      (hf : Many (FieldRule name) ts fields) (hm : Many (MethodRule name) us methods) :
      Source (ts ++ us) ⟨firstMark (ts ++ us), fields, methods⟩

end LetDef.Grammar
