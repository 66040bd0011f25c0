import LineShell.Cli.Transcript
import LineShell.Line.Scan
import LineShell.Text.Column
import LineShell.Text.JsonStrings
import LineShell.Text.Literal

/-!
# Cli/Trace — showing the steps of a scan

One line is printed for the initial state of a scan and one for the state after each character that
it accepts: the character, the mode, the two flags, the index and the words as JSON. The line goes
through the console's markup, so the label is dimmed and the words are escaped.
-/

namespace LineShell.Cli

/-- The name under which a trace shows a mode. -/
def modeName : Line.Mode → String
  | .outside => "NONE"
  | .inside .double => "IN_DOUBLE"
  | .inside .single => "IN_SINGLE"
  | .closed => "JUST_CLOSED"

/-- A flag as a digit. -/
def flag (b : Bool) : String := if b then "1" else "0"

/-- The text with its tags protected. -/
def escaped (s : String) : String := .ofList (Text.escapeMarkup s.toList)

/-- The label of the state after a character, or of the initial state. -/
def traceLabel : Option Char → String
  | none => "start"
  | some c => Text.literal (String.singleton c)

/-- What stands between the label of a state and its words. -/
def traceState (s : Line.Scan) : String :=
  s!"{Text.padRight 11 (modeName s.mode)} escape={flag s.escaping} ws={flag s.afterBlank} " ++
    s!"index={s.index} "

/-- The markup of the line for a state. -/
def traceMarkup (c : Option Char) (s : Line.Scan) : String :=
  "[dim]" ++ Text.padLeft 8 (escaped (traceLabel c)) ++ "[/dim] " ++ traceState s ++
    escaped (Text.jsonList s.tokens.toList)

/-- The line for a state. -/
def traceLine (c : Option Char) (s : Line.Scan) : String :=
  .ofList (Text.showMarkup (traceMarkup c s).toList)

/-- The lines for the states of the scan of a line. -/
def traceLines (line : String) : List String :=
  let start : Line.Scan := {}
  traceLine none start :: (start.trace line.toList).map fun (c, s) => traceLine (some c) s

end LineShell.Cli
