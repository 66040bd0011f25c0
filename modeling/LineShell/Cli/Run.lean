import LineShell.Cli.Repl
import LineShell.Cli.Request
import LineShell.Cli.Trace
import LineShell.Config.Settings
import LineShell.Script.Runner
import LineShell.Session.Builtin

/-!
# Cli/Run — answering a command line

Every request is answered by an exit code and a transcript. What goes wrong is told on the error
stream: settings that cannot be loaded in red after a cross, anything else after `Error:`.
-/

namespace LineShell.Cli

/-- The ending of a run that fails for a reason told in a sentence. -/
def failed (message : String) : Ending := ⟨1, .err s!"Error: {message}\n"⟩

/-- The ending of a run that lacks a word; the sentence tells which. -/
def lacking (sentence : String) : Ending := ⟨1, .err (sentence ++ "\n\n") ++ .out usageText⟩

/-- Splits a line and prints its words, and the steps of the scan if they are asked for. -/
def tokenize (trace : Bool) (line : String) : Ending :=
  let steps := if trace then String.join ((traceLines line).map (· ++ "\n")) else ""
  match Line.tokenize line with
  | .ok tokens => ⟨0, .out (steps ++ Text.jsonList tokens ++ "\n")⟩
  | .error fault => ⟨1, .out steps ++ .err s!"syntax error: {fault.message}\n"⟩

/-- A session with the identity that settings give. -/
def newSession (s : Settings) : Session := .start s.name s.user s.host Builtin.registry

/-- The ending of a run whose settings cannot be loaded. -/
def badSettings : SettingsFault → Ending
  | .notUtf8 fault => failed fault.message
  | .unreachable path fault => failed (fault.message path)
  | fault => ⟨1, .err (Text.showError ("✗ " ++ fault.message) ++ "\n")⟩

/-- Why the word `--` attached to an option is no path. -/
def noPath : String := "expected str, bytes or os.PathLike object, not list"

/-- The settings that the command line names, or how the run ends without them. -/
def settingsOf (m : Machine) (config : Option String) : Except Ending Settings :=
  if config = some "--" then .error (failed noPath)
  else match Settings.load m config with
    | .ok settings => .ok settings
    | .error fault => .error (badSettings fault)

/-- One line of the statistics of a script. -/
def statLine (n : Nat) (what : String) : String :=
  "\x1b[35m┃\x1b[0m " ++ Text.padRight 6 (toString n) ++ " " ++ what ++ "\n"

/-- The statistics of a script. -/
def stats (r : Script.Runner) : String :=
  statLine r.lineCount "Lines" ++ statLine r.commandCount "Commands" ++
    statLine r.errors.size "Errors"

/-- Runs a script. -/
def runScript (m : Machine) (path : String) (settings : Settings) : Ending :=
  let r : Script.Runner := { session := newSession settings }
  match r.runFile m.read path with
  | (.ok (), after) => ⟨0, .ofOutput after.session.output ++ .out (stats after)⟩
  | (.error (.malformed _), after) =>
      ⟨1, .ofOutput after.session.output ++ .errLines after.reports ++ .out (stats after)⟩
  | (.error failure, after) =>
      (failed failure.message).after (.ofOutput after.session.output)

/-- The prompt that a console shows and the session that it prompts for, or how the run ends
without them. -/
def openRepl (m : Machine) (config : Option String) : Except Ending (String × Session) :=
  match settingsOf m config with
  | .error ending => .error ending
  | .ok settings =>
      match settings.formatPrompt with
      | .ok prompt => .ok (Text.showText prompt, newSession settings)
      | .error fault => .error (failed fault.message)

/-- Runs an interactive session on lines of input. -/
def runRepl (m : Machine) (config : Option String) (input : List String)
    (inputEnd : Repl.InputEnd) : Ending :=
  match openRepl m config with
  | .ok (prompt, session) => Repl.run prompt inputEnd session input
  | .error ending => ending

/-- Answers a request; `input` is what an interactive session reads. -/
def answer (m : Machine) (input : List String) (inputEnd : Repl.InputEnd) : Request → Ending
  | .help => ⟨0, .out usageText⟩
  | .version => ⟨0, .out (version ++ "\n")⟩
  | .tokenize trace (some line) => tokenize trace line
  | .tokenize _ none => lacking "Please specify a command line to tokenize"
  | .run config script =>
      match script.getD "" with
      | "" => lacking "Please specify a script to run"
      | path =>
          match settingsOf m config with
          | .ok settings => runScript m path settings
          | .error ending => ending
  | .repl config => runRepl m config input inputEnd

/-- Answers a command line. -/
def respond (m : Machine) (args input : List String) (inputEnd : Repl.InputEnd) : Ending :=
  match Request.parse args with
  | .ok request => answer m input inputEnd request
  | .error fault => ⟨2, .err fault.report⟩

end LineShell.Cli
