import LetDef.CommandLine.Request
import LetDef.Text.Quoted

/-!
# Outcomes

What a command line leaves behind, and the texts of help and of refusals.
-/

namespace LetDef.CommandLine

/-- An exit status and what was written to either channel. -/
structure Outcome where
  status : Nat
  output : String
  errors : String
deriving DecidableEq, Repr

/-- The name of the program, followed by that of a command. -/
def programName : Option Command → String
  | none => "plc"
  | some c => "plc " ++ c.name

/-- The commands between braces. -/
def commandChoice : String :=
  "\x7b" ++ ",".intercalate (Command.all.map Command.name) ++ "\x7d"

/-- How to use the program or one of its commands. -/
def usage (command : Option Command) : String :=
  "usage: " ++ programName command ++ " [-h] "
    ++ (match command with
      | none => "[--version] [-v] " ++ commandChoice ++ " ..."
      | some _ => "file")
    ++ "\n"

/-- Two columns of a help text, the second from `width` on. -/
def columns (width : Nat) (left right : String) : String :=
  left ++ String.ofList (List.replicate (width - left.length) ' ') ++ right ++ "\n"

/-- The help for a command. -/
def commandHelp (command : Command) : String :=
  usage (some command) ++ "\npositional arguments:\n"
    ++ columns 14 "  file" "PLC source file"
    ++ "\noptions:\n"
    ++ columns 14 "  -h, --help" "show this help message and exit"

/-- The help for the program. -/
def mainHelp : String :=
  usage none ++ "\nLexer, parser, analyzer and interpreter for the PLC language\n"
    ++ "\npositional arguments:\n  " ++ commandChoice ++ "\n"
    ++ String.join (Command.all.map fun c => columns 24 ("    " ++ c.name) c.purpose)
    ++ "\noptions:\n"
    ++ columns 24 "  -h, --help" "show this help message and exit"
    ++ columns 24 "  --version" "show program's version number and exit"
    ++ columns 24 "  -v, --verbose" "Enable debug logging"
    ++ "\nExamples:\n"
    ++ "    plc run program.plc        # Run main() and exit with its value\n"
    ++ "    plc check program.plc      # Type check only\n"
    ++ "    plc -v lex program.plc     # Show tokens with debug logging\n"
    ++ "        \n"

/-- The version of the program. -/
def versionText : String :=
  "plc 0.1.0\n"

/-- What is wrong, in words. -/
def Complaint.message : Complaint → String
  | .ambiguous text candidates =>
    "ambiguous option: " ++ text ++ " could match " ++ ", ".intercalate (candidates.map Flag.long)
  | .unwantedValue flag value =>
    "argument " ++ flag.title ++ ": ignored explicit argument " ++ Text.quote value
  | .missing operand => "the following arguments are required: " ++ operand
  | .unknownCommand name =>
    "argument command: invalid choice: " ++ Text.quote name ++ " (choose from "
      ++ ", ".intercalate (Command.all.map fun c => Text.quote c.name) ++ ")"
  | .unrecognized texts => "unrecognized arguments: " ++ " ".intercalate texts

/-- The outcome where nothing else is asked for. -/
def Stop.outcome : Stop → Outcome
  | .help none => ⟨0, mainHelp, ""⟩
  | .help (some command) => ⟨0, commandHelp command, ""⟩
  | .version => ⟨0, versionText, ""⟩
  | .refusal command complaint =>
    ⟨2, "", usage command ++ programName command ++ ": error: " ++ complaint.message ++ "\n"⟩

end LetDef.CommandLine
