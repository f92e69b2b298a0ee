import LetDef.CommandLine.Service

/-!
# The command line program
-/

namespace LetDef

/-- The reason behind an error of the system. -/
def unreadable : IO.Error → CommandLine.Unreadable
  | .noFileOrDirectory .. => .missing
  | .permissionDenied .. => .denied
  | .inappropriateType .. => .directory
  | e => .other (toString e)

/-- What reading a file yields. -/
def readContent (file : String) : IO (Except CommandLine.Unreadable ByteArray) := do
  try return .ok (← IO.FS.readBinFile file)
  catch e => return .error (unreadable e)

/-- Writes an outcome and gives its status. -/
def conclude (o : CommandLine.Outcome) : IO UInt32 := do
  (← IO.getStdout).putStr o.output
  (← IO.getStderr).putStr o.errors
  return o.status.toUInt32

/-- Why a request breaks off, in words. -/
def breakdownText : CommandLine.Breakdown → String
  | .notText => "The file is not encoded in UTF-8."
  | .outlineTooDeep => "The program is nested too deeply."
  | .failure f => "The " ++ f.phase ++ " phase exceeded a limit."

end LetDef

open LetDef in
/-- Serves the request of the command line. -/
def main (arguments : List String) : IO UInt32 := do
  match CommandLine.Request.ofArguments arguments with
  | .error stop => conclude stop.outcome
  | .ok request =>
    match request.serve (← readContent request.file) with
    | .ok outcome => conclude outcome
    | .error breakdown => conclude ⟨1, "", breakdownText breakdown ++ "\n"⟩
