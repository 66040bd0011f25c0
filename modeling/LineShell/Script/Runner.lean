import LineShell.Files.Basic
import LineShell.Script.Comment
import LineShell.Session.Basic
import LineShell.Text.Lines
import LineShell.Text.Utf8

/-!
# Script/Runner — running the lines of a script

A runner feeds lines to a session and keeps count. A line that cannot be read is noted and skipped,
also after the session has ended, so that one run reports every such line; the first other line
that finds the session ended stops the run. A file is read as a whole before its first line runs.
-/

namespace LineShell.Script

/-- A line that could not be read. -/
structure LineError where
  /-- The name of the cause. -/
  cause : String
  /-- The number of the line, counted from one. -/
  line : Nat
  path : String
  deriving DecidableEq, Repr

/-- The line of a report about a line that could not be read. -/
def LineError.report (e : LineError) : String := s!"{e.path}:{e.line}: error.{e.cause}"

/-- A session with the account of the scripts that were run in it. -/
structure Runner where
  session : Session
  /-- The lines that could not be read, over all runs. -/
  errors : Array LineError := #[]
  lineCount : Nat := 0
  commandCount : Nat := 0

/-- The cause for which a script fails. -/
inductive Failure where
  /-- The file cannot be opened. -/
  | unreadable (path : String) (fault : Files.Fault)
  /-- The path holds the character `U+0000`, which no path may. -/
  | nulInPath
  /-- The file is not UTF-8. -/
  | notText (fault : Text.Utf8.Fault)
  /-- Some lines could not be read. -/
  | malformed (count : Nat)
  /-- An operation on the session failed. -/
  | session (failure : LineShell.Failure)
  deriving DecidableEq, Repr

/-- The sentence that tells about the cause. -/
def Failure.message : Failure → String
  | unreadable path fault => s!"Cannot read script '{path}': {fault.message path}"
  | nulInPath => "embedded null byte"
  | notText fault => fault.message
  | malformed count => s!"{count} line(s) failed to parse"
  | session failure => failure.message

namespace Runner

/-- Runs lines, numbered from `number`, as the lines of the script at a path. -/
def runFrom (path : String) : (number : Nat) → List String → Runner →
    Except LineShell.Failure Unit × Runner
  | _, [], r => (.ok (), r)
  | number, line :: rest, r =>
      let counted := { r with lineCount := r.lineCount + 1 }
      if isComment line then runFrom path (number + 1) rest counted
      else match Line.tokenize line with
        | .error fault =>
            runFrom path (number + 1) rest
              { counted with errors := r.errors.push ⟨fault.name, number, path⟩ }
        | .ok tokens =>
            if r.session.isActive then
              match r.session.execTokens line tokens with
              | (.ok (), session) =>
                  runFrom path (number + 1) rest
                    { counted with session, commandCount := r.commandCount + 1 }
              | (.error failure, session) => (.error failure, { counted with session })
            else (.ok (), counted)

/-- Runs lines as the lines of the script at a path. -/
def runLines (r : Runner) (lines : List String) (path : String) :
    Except LineShell.Failure Unit × Runner :=
  runFrom path 1 lines r

/-- The lines of a script file: any line end counts, and the end of the file ends a line. -/
def linesOf (content : List Char) : List String :=
  (Text.splitAt '\n' (Text.unifyBreaks content)).map String.ofList

/-- Reads the lines of the script file at a path. -/
def readLines (read : Files.Reader) (path : String) : Except Failure (List String) :=
  if path.toList.contains '\x00' then .error .nulInPath
  else match read path with
    | .error fault => .error (.unreadable path fault)
    | .ok bytes =>
        match Text.Utf8.decode bytes with
        | .error fault => .error (.notText fault)
        | .ok content => .ok (linesOf content)

/-- The report about all lines that could not be read. -/
def reports (r : Runner) : List String := r.errors.toList.map LineError.report

/-- Runs the script file at a path. -/
def runFile (r : Runner) (read : Files.Reader) (path : String) : Except Failure Unit × Runner :=
  match readLines read path with
  | .error failure => (.error failure, r)
  | .ok lines =>
      match r.runLines lines path with
      | (.error failure, after) => (.error (.session failure), after)
      | (.ok (), after) =>
          if after.errors.isEmpty then (.ok (), after)
          else (.error (.malformed after.errors.size), after)

/-- What running a script file prints on the error stream: the reports, if it fails for lines that
could not be read. -/
def reported : Except Failure Unit × Runner → List String
  | (.error (.malformed _), after) => after.reports
  | _ => []

end Runner

end LineShell.Script
