import LetDef.CommandLine.Outcome
import LetDef.Pipeline
import LetDef.Syntax.Outline
import LetDef.Text.Decoding

/-!
# Serving requests

A request reads its file and takes it through as many phases as its command needs. The log tells
which phases have ended; it is shown when the request is verbose.
-/

namespace LetDef.CommandLine

/-- Why a file cannot be read. -/
inductive Unreadable where
  | missing
  | directory
  | notADirectory
  | nameTooLong
  | denied
  | other (reason : String)
deriving DecidableEq, Repr

/-- Why a file cannot be read, in words. -/
def Unreadable.message : Unreadable → String
  | .missing => "No such file or directory"
  | .directory => "Is a directory"
  | .notADirectory => "Not a directory"
  | .nameTooLong => "File name too long"
  | .denied => "Permission denied"
  | .other reason => reason

/-- Why a request breaks off without an outcome. -/
inductive Breakdown where
  /-- The file is no UTF-8 text. -/
  | notText
  /-- The tree is nested too deeply for an outline. -/
  | outlineTooDeep
  /-- A phase fails on account of a limit. -/
  | failure (f : Failure)
deriving DecidableEq, Repr

/-- An entry of the log. -/
inductive Note where
  | scanned (tokens : Nat)
  | parsed (fields methods : Nat)
  | analyzed (fields methods : Nat)
  | returned (v : Value)
  | finished (exitCode : Int)
deriving DecidableEq, Repr

/-- The numbers of fields and methods. -/
def memberCount (fields methods : Nat) : String :=
  toString fields ++ " fields and " ++ toString methods ++ " methods"

/-- An entry of the log about a file as a line. -/
def Note.line (file : String) : Note → String
  | .scanned tokens =>
    "DEBUG plc.lexer.lexer: Lexed " ++ toString tokens ++ " tokens from " ++ file ++ "\n"
  | .parsed fields methods =>
    "DEBUG plc.parser.parser: Parsed " ++ memberCount fields methods ++ "\n"
  | .analyzed fields methods =>
    "DEBUG plc.analyzer.semantic_analyzer: Analyzed " ++ memberCount fields methods ++ "\n"
  | .returned v => "DEBUG plc.interpreter.interpreter: main() returned " ++ v.quoted ++ "\n"
  | .finished exitCode =>
    "DEBUG plc.driver: " ++ file ++ " finished with exit code " ++ Number.integerText exitCode
      ++ "\n"

/-- What a request has written so far. -/
structure Transcript where
  output : String := ""
  notes : List Note := []

/-- A part of the service. What it has written stays written when it breaks off. -/
abbrev Serve := ExceptT Breakdown (StateM Transcript)

/-- Writes to the output. -/
def write (text : String) : Serve Unit :=
  modify fun t => { t with output := t.output ++ text }

/-- Makes an entry in the log. -/
def note (n : Note) : Serve Unit :=
  modify fun t => { t with notes := t.notes ++ [n] }

/-- The result of a phase. -/
def phase {α : Type} (result : Except Failure α) : Serve α :=
  match result with
  | .ok a => pure a
  | .error f => throw (.failure f)

/-- The tokens of a text. -/
def tokensOf (file source : String) : Serve (List Token) := do
  let tokens ← phase ((Token.scan file source).mapError .scan)
  note (.scanned tokens.length)
  return tokens

/-- The program of a text. -/
def programOf (file source : String) : Serve Program := do
  let tokens ← tokensOf file source
  let p ← phase ((Program.ofTokens Parser.maxDepth tokens).mapError .parse)
  note (.parsed p.fields.length p.methods.length)
  return p

/-- The program of a text, once it has been analysed. -/
def analyzedProgram (file source : String) : Serve Program := do
  let p ← programOf file source
  let _ ← phase p.check
  note (.analyzed p.fields.length p.methods.length)
  return p

/-- The exit status for an exit code, which has to fit a byte. -/
def statusOf (exitCode : Int) : Nat :=
  min exitCode.toNat 255

/-- Does what a command asks for, and gives the exit status. -/
def Command.serve (file source : String) : Command → Serve Nat
  | .run => do
    let p ← analyzedProgram file source
    let (result, output) := p.execute ampleFuel
    write output
    let r ← phase result
    note (.returned r.value.value)
    note (.finished r.exitCode)
    return statusOf r.exitCode
  | .lex => do
    let tokens ← tokensOf file source
    write (String.join (tokens.map fun t => t.listing ++ "\n"))
    return 0
  | .parse => do
    let p ← programOf file source
    match p.toNode.outline? with
    | none => throw .outlineTooDeep
    | some lines => write (lines ++ "\n")
    return 0
  | .check => do
    let p ← analyzedProgram file source
    write (file ++ ": OK (" ++ toString p.fields.length ++ " fields, "
      ++ toString p.methods.length ++ " methods)\n")
    return 0

/-- The outcome of a request on the text of its file. -/
def Request.serveText (r : Request) (source : String) : Except Breakdown Outcome :=
  let (result, transcript) := ((r.command.serve r.file source).run {}).run
  let log := if r.verbose then String.join (transcript.notes.map (Note.line r.file)) else ""
  match result with
  | .ok status => .ok ⟨status, transcript.output, log⟩
  | .error (.failure f) =>
    match f.report? with
    | some report =>
      .ok ⟨1, transcript.output, log ++ f.phase ++ " error in " ++ r.file ++ "\n" ++ report.text⟩
    | none => .error (.failure f)
  | .error breakdown => .error breakdown

/-- The outcome of a request, given what reading its file yields. -/
def Request.serve (r : Request) (content : Except Unreadable ByteArray) :
    Except Breakdown Outcome :=
  match content with
  | .error reason =>
    .ok ⟨1, "", "Cannot read " ++ r.file ++ ": " ++ reason.message ++ "\n"⟩
  | .ok bytes =>
    match Text.decode? bytes with
    | none => .error .notText
    | some source => r.serveText source

end LetDef.CommandLine
