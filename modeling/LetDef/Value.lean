import LetDef.Number.Decimal
import LetDef.Text.Quoted

/-!
# Values

The values of the language. Characters and strings are both texts. A host may also hand in data
that is no value.
-/

namespace LetDef

/-- A value of the language. -/
inductive Value where
  | nil
  | boolean (b : Bool)
  | text (s : String)
  | integer (n : Int)
  | decimal (d : Decimal)
deriving DecidableEq, Repr, Inhabited

/-- What a host may offer as a value. -/
inductive Datum where
  | value (v : Value)
  | list (items : List Datum)
deriving Repr, Inhabited

namespace Value

/-- The equality of the language: the same kind and value, and for decimals the same exponent. -/
def same : Value → Value → Bool
  | .nil, .nil => true
  | .boolean a, .boolean b => a == b
  | .text a, .text b => a == b
  | .integer a, .integer b => a == b
  | .decimal a, .decimal b => a.same b
  | _, _ => false

/-- The name of a value's kind in messages. -/
def kindName : Value → String
  | .nil => "NoneType"
  | .boolean _ => "bool"
  | .text _ => "str"
  | .integer _ => "int"
  | .decimal _ => "Decimal"

/-- The text that printing and joining show, unless an integer has too many digits. -/
def render? : Value → Option String
  | .nil => some "null"
  | .boolean true => some "true"
  | .boolean false => some "false"
  | .text s => some s
  | .integer n => Number.integerText? n
  | .decimal d => some d.text

/-- The value as source data, with quotes around texts and a mark on decimals. -/
def quoted : Value → String
  | .nil => "None"
  | .boolean true => "True"
  | .boolean false => "False"
  | .text s => Text.quote s
  | .integer n => Number.integerText n
  | .decimal d => "Decimal('" ++ d.text ++ "')"

/-- The value in the range of exponents, unless it is a decimal that is too large. -/
def confine? : Value → Option Value
  | .decimal d => d.confine?.map .decimal
  | v => some v

/-- The value as a number; truth values count as one and zero. -/
def number? : Value → Option Decimal
  | .boolean b => some (.ofInt (if b then 1 else 0))
  | .integer n => some (.ofInt n)
  | .decimal d => some d
  | _ => none

/-- Whether two values agree as data: as numbers if both are, else as texts or as nil. -/
def agrees (a b : Value) : Bool :=
  match a.number?, b.number? with
  | some x, some y => x.sameValue y
  | none, none => a == b
  | _, _ => false

end Value

namespace Datum

/-- The value that the host offers, if it is one. -/
def value? : Datum → Option Value
  | .value v => some v
  | .list _ => none

/-- Whether two data agree, item by item. -/
def agrees : Datum → Datum → Bool
  | .value a, .value b => a.agrees b
  | .list as, .list bs => go as bs
  | _, _ => false
where
  /-- Whether two lists of data agree. -/
  go : List Datum → List Datum → Bool
    | [], [] => true
    | a :: as, b :: bs => a.agrees b && go as bs
    | _, _ => false

/-- The datum as source data. -/
def quoted : Datum → String
  | .value v => v.quoted
  | .list items => "[" ++ ", ".intercalate (go items) ++ "]"
where
  /-- The items of a list as source data. -/
  go : List Datum → List String
    | [] => []
    | d :: ds => d.quoted :: go ds

end Datum

end LetDef
