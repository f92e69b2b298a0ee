import LetDef.CommandLine.Word

/-!
# Requests

A command line asks for a command on a file. Options before the command are its own, those after
it belong to the command. Words are taken from left to right, and help or the version ends the
reading at once.
-/

namespace LetDef.CommandLine

/-- The commands. -/
inductive Command where
  | run
  | lex
  | parse
  | check
deriving DecidableEq, Repr

namespace Command

/-- The commands in the order of their listing. -/
def all : List Command :=
  [.run, .lex, .parse, .check]

/-- The name of a command. -/
def name : Command → String
  | .run => "run"
  | .lex => "lex"
  | .parse => "parse"
  | .check => "check"

/-- The command of a name. -/
def ofName? (name : String) : Option Command :=
  all.find? (·.name == name)

/-- What a command is for. -/
def purpose : Command → String
  | .run => "Interpret a program"
  | .lex => "Print the tokens of a program"
  | .parse => "Print the syntax tree of a program"
  | .check => "Analyze a program without running it"

/-- The options that a command knows. -/
def flags : List Flag :=
  [.help]

end Command

/-- The options that stand before the command. -/
def mainFlags : List Flag :=
  [.help, .version, .verbose]

/-- What a command line asks for. -/
structure Request where
  command : Command
  file : String
  verbose : Bool
deriving DecidableEq, Repr

/-- Why a command line asks for nothing else. What concerns a command names it. -/
inductive Stop where
  | help (command : Option Command)
  | version
  | refusal (command : Option Command) (complaint : Complaint)
deriving DecidableEq, Repr

/-- Refuses the words that belong to a command, or those before it. -/
def refuse {α : Type} (command : Option Command) (result : Except Complaint α) : Except Stop α :=
  result.mapError (.refusal command)

/-- The file among the words after a command, and the words that have no place there. -/
def readFile (command : Command) (file : Option String) (extra : List String) :
    List Word → Except Stop (String × List String)
  | [] =>
    match file with
    | some f => .ok (f, extra)
    | none => .error (.refusal (some command) (.missing "file"))
  | .separator :: .plain text :: rest =>
    match file with
    | none => readFile command (some text) extra rest
    | some f => readFile command (some f) (extra ++ ["--", text]) rest
  | .separator :: rest => readFile command file (extra ++ ["--"]) rest
  | .plain text :: .separator :: rest =>
    match file with
    | none => readFile command (some text) extra rest
    | some f => readFile command (some f) (extra ++ [text, "--"]) rest
  | .plain text :: rest =>
    match file with
    | none => readFile command (some text) extra rest
    | some f => readFile command (some f) (extra ++ [text]) rest
  | .long flag value :: rest =>
    match value with
    | some v => .error (.refusal (some command) (.unwantedValue flag v))
    | none =>
      if flag = .help then .error (.help (some command))
      else readFile command file extra rest
  | .short flag tail :: rest => do
    let (flags, left) ← refuse (some command) (cluster Command.flags flag tail)
    if flags.contains .help then .error (.help (some command))
    else readFile command file (extra ++ left) rest
  | .unknown text :: rest => readFile command file (extra ++ [text]) rest

/-- Follows options before the command. -/
def follow (verbose : Bool) : List Flag → Except Stop Bool
  | [] => .ok verbose
  | .help :: _ => .error (.help none)
  | .version :: _ => .error .version
  | .verbose :: rest => follow true rest

/-- Reads a command and the arguments after it. -/
def readCommand (verbose : Bool) (extra : List String) (name : String) (arguments : List String) :
    Except Stop Request := do
  match Command.ofName? name with
  | none => throw (.refusal none (.unknownCommand name))
  | some command =>
    let words ← refuse (some command) (Word.ofTexts Command.flags arguments)
    let (file, left) ← readFile command none [] words
    match extra ++ left with
    | [] => return ⟨command, file, verbose⟩
    | texts => throw (.refusal none (.unrecognized texts))

/-- Reads the words, each with its text, up to the command. A separator cannot stand before it. -/
def readWords (verbose : Bool) (extra : List String) :
    List (Word × String) → Except Stop Request
  | [] => .error (.refusal none (.missing "command"))
  | (.separator, _) :: [] => .error (.refusal none (.missing "command"))
  | (.separator, text) :: rest => readCommand verbose extra text (rest.map Prod.snd)
  | (.plain name, _) :: rest => readCommand verbose extra name (rest.map Prod.snd)
  | (.long flag value, _) :: rest =>
    match value with
    | some v => .error (.refusal none (.unwantedValue flag v))
    | none => do readWords (← follow verbose [flag]) extra rest
  | (.short flag tail, _) :: rest => do
    let (flags, left) ← refuse none (cluster mainFlags flag tail)
    readWords (← follow verbose flags) (extra ++ left) rest
  | (.unknown text, _) :: rest => readWords verbose (extra ++ [text]) rest

/-- What the arguments ask for. -/
def Request.ofArguments (arguments : List String) : Except Stop Request := do
  let words ← refuse none (Word.ofTexts mainFlags arguments)
  readWords false [] (words.zip arguments)

end LetDef.CommandLine
