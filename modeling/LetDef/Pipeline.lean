import LetDef.Analysis.Program
import LetDef.Execution.Program
import LetDef.Parser.Program
import LetDef.Token.Scan

/-!
# From text to value

Scanning, parsing, analysis and execution in a row. The first phase that fails ends it.
-/

namespace LetDef

/-- Why a text is not checked or run to its end. -/
inductive Failure where
  | scan (e : Token.ScanError)
  | parse (h : Parser.Halt)
  | analysis (h : Analysis.Halt)
  | execution (h : Execution.Halt)
deriving DecidableEq, Repr

/-- The phase that fails. -/
def Failure.phase : Failure → String
  | .scan _ => "lex"
  | .parse _ => "parse"
  | .analysis _ => "analyze"
  | .execution _ => "run"

/-- The report of a failure that is the program's fault. -/
def Failure.report? : Failure → Option Report
  | .scan e => some e.report
  | .parse (.fault f) => some f.report
  | .analysis (.fault f) => some f.report
  | .execution (.fault f) => some f.report
  | _ => none

/-- The program that a text is. -/
def Program.ofText (file source : String) : Except Failure Program := do
  let tokens ← (Token.scan file source).mapError .scan
  (Program.ofTokens Parser.maxDepth tokens).mapError .parse

/-- A program that has been analysed, its nodes numbered. -/
structure Checked where
  program : Program
  globals : Scope
  state : Analysis.State

/-- The fields of an analysed program as variables. -/
def Checked.fields (c : Checked) : List Variable :=
  c.program.fields.filterMap fun f => c.state.store.getVariable? ⟨c.globals.frame, f.name⟩

/-- The methods of an analysed program as functions. -/
def Checked.methods (c : Checked) : List Function :=
  c.program.methods.filterMap fun m =>
    c.state.store.getFunction? ⟨c.globals.frame, m.name, m.parameterTypes.length⟩

/-- Analyses a program without names from outside. -/
def Program.check (p : Program) : Except Failure Checked :=
  let (globals, store) := Analysis.globalScope none {}
  match ((Analysis.analyze Analysis.maxDepth globals p).run { store := store }).run with
  | (.ok _, state) => .ok ⟨p.numbered, globals, state⟩
  | (.error h, _) => .error (.analysis h)

/-- Reads and analyses a text. -/
def check (file source : String) : Except Failure Checked := do
  (← Program.ofText file source).check

/-- The value of a finished run. -/
structure RunResult where
  value : Object
  exitCode : Int
deriving DecidableEq, Repr

/-- The exit code that a value stands for. -/
def exitCode (o : Object) : Int :=
  match o.value with
  | .integer n => n
  | _ => 0

/-- Runs a program without names from outside, and gives what it printed. -/
def Program.execute (fuel : Nat) (p : Program) : Except Failure RunResult × String :=
  let (globals, store) := Execution.globalScope none {}
  match ((Execution.run .none fuel Execution.maxDepth globals p).run { store := store }).run with
  | (.ok o, world) => (.ok ⟨o, exitCode o⟩, world.output)
  | (.error h, world) => (.error (.execution h), world.output)

/-- Reads, analyses and runs a text, and gives what it printed. -/
def evaluate (fuel : Nat) (file source : String) : Except Failure RunResult × String :=
  match check file source with
  | .error e => (.error e, "")
  | .ok c => c.program.execute fuel

/-- Fuel for more tests of a condition than any run gets to. -/
def ampleFuel : Nat := Nat.pow 2 62

end LetDef
