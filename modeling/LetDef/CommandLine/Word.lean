import LetDef.Text.Digit

/-!
# Words of a command line

How a single argument is understood. Long options may be cut short as long as they stay apart, and
short ones may share a dash. All that follows a lone `--` is plain.
-/

namespace LetDef.CommandLine

/-- The options. -/
inductive Flag where
  | help
  | version
  | verbose
deriving DecidableEq, Repr

namespace Flag

/-- The letter of an option. -/
def letter? : Flag → Option Char
  | .help => some 'h'
  | .version => none
  | .verbose => some 'v'

/-- The long form of an option. -/
def long : Flag → String
  | .help => "--help"
  | .version => "--version"
  | .verbose => "--verbose"

/-- All forms of an option. -/
def title (f : Flag) : String :=
  (f.letter?.elim "" fun c => String.ofList ['-', c, '/']) ++ f.long

end Flag

/-- What is wrong with a command line. -/
inductive Complaint where
  | ambiguous (text : String) (candidates : List Flag)
  | unwantedValue (flag : Flag) (value : String)
  | missing (operand : String)
  | unknownCommand (name : String)
  | unrecognized (texts : List String)
deriving DecidableEq, Repr

/-- An argument as it is understood. -/
inductive Word where
  /-- The mark after which all words are plain. -/
  | separator
  | plain (text : String)
  /-- A long option with what stands after an equals sign. -/
  | long (flag : Flag) (value : Option String)
  /-- A short option with all that follows its letter. -/
  | short (flag : Flag) (tail : List Char)
  /-- What looks like an option but is none. -/
  | unknown (text : String)
deriving DecidableEq, Repr

/-- The option of a letter among those that are known. -/
def flagOfLetter? (known : List Flag) (c : Char) : Option Flag :=
  known.find? fun f => f.letter? = some c

/-- Whether the characters after a dash make a number, possibly with a line end after it. -/
def isNumeral (cs : List Char) : Bool :=
  let cs := if cs.getLast? = some '\n' then cs.dropLast else cs
  match cs.takeWhile Text.isDecimalDigit, cs.dropWhile Text.isDecimalDigit with
  | whole, [] => !whole.isEmpty
  | _, '.' :: fraction => !fraction.isEmpty && fraction.all Text.isDecimalDigit
  | _, _ => false

/-- A word that starts with a dash and is no option: negative numbers and words with a blank are
plain. -/
def Word.ofOther (text : String) : Word :=
  if isNumeral (text.toList.drop 1) || text.toList.contains ' ' then .plain text
  else .unknown text

/-- A word that starts with two dashes and goes on. -/
def Word.ofLong (known : List Flag) (text : String) : Except Complaint Word :=
  let stem := text.toList.takeWhile (· ≠ '=')
  let value := match text.toList.dropWhile (· ≠ '=') with
    | [] => none
    | _ :: rest => some (String.ofList rest)
  match known.filter fun f => stem.isPrefixOf f.long.toList with
  | [] => .ok (.ofOther text)
  | [f] => .ok (.long f value)
  | candidates => .error (.ambiguous text candidates)

/-- How an argument before any separator is understood. -/
def Word.ofText (known : List Flag) (text : String) : Except Complaint Word :=
  match text.toList with
  | ['-', '-'] => .ok .separator
  | '-' :: '-' :: _ => Word.ofLong known text
  | '-' :: c :: tail =>
    match flagOfLetter? known c with
    | some f => .ok (.short f tail)
    | none => .ok (.ofOther text)
  | _ => .ok (.plain text)

/-- How the arguments are understood. -/
def Word.ofTexts (known : List Flag) : List String → Except Complaint (List Word)
  | [] => .ok []
  | text :: rest => do
    match ← Word.ofText known text with
    | .separator => return .separator :: rest.map .plain
    | word => return word :: (← Word.ofTexts known rest)

/-- The options of a cluster, which starts with the given one, and what is left of it from the
first letter on that is none. -/
def cluster (known : List Flag) (flag : Flag) :
    List Char → Except Complaint (List Flag × List String)
  | [] => .ok ([flag], [])
  | '=' :: value => .error (.unwantedValue flag (String.ofList value))
  | c :: rest =>
    if c = '-' then .error (.unwantedValue flag (String.ofList (c :: rest)))
    else
      match flagOfLetter? known c with
      | none => .ok ([flag], [String.ofList ('-' :: c :: rest)])
      | some next => do
        let (flags, left) ← cluster known next rest
        return (flag :: flags, left)

end LetDef.CommandLine
