import LetDef.Position

/-!
# Reports

What a phase says about a program it refuses.
-/

namespace LetDef

/-- The parts of a diagnostic. Having no suggestions differs from having an empty list of them. -/
structure Report where
  message : String
  position : Option Position := none
  code : Option String := none
  help : Option String := none
  suggestions : Option (List String) := none
deriving DecidableEq, Repr

namespace Report

/-- The lines under the heading of the suggestions. -/
def suggestionText : List String → String
  | [] => ""
  | suggestions => "  suggestions:\n" ++ String.join (suggestions.map ("    - " ++ · ++ "\n"))

/-- The report as it is shown. -/
def text (r : Report) : String :=
  "ERROR: " ++ r.message ++ "\n"
    ++ (r.position.map ("  --> " ++ ·.text ++ "\n")).getD ""
    ++ (r.help.map ("  help: " ++ · ++ "\n")).getD ""
    ++ suggestionText (r.suggestions.getD [])

end Report

end LetDef
