import LineShell.Cli.Transcript
import LineShell.Session.Basic

/-!
# Cli/Repl — an interactive session

A session prompts, runs a line and shows what it printed, until the session or the input ends. One
step works on a session whose output is empty and leaves one whose output is empty, so what a step
shows is what its line has printed.
-/

namespace LineShell.Cli.Repl

/-- What a console shows of the output of a session, and the session with that output forgotten. -/
def drain (s : Session) : Transcript × Session :=
  (Transcript.ofOutput s.output, { s with output := {} })

/-- Runs a line: what it shows, the session after it, and the failure it met, if any. -/
def step (s : Session) (line : String) : Transcript × Session × Option Failure :=
  match s.exec line with
  | (.ok (), t) => let (shown, u) := drain t; (shown, u, none)
  | (.error failure, t) => let (shown, u) := drain t; (shown, u, some failure)

/-- How the input ends. -/
inductive InputEnd where
  /-- There is no more input. -/
  | endOfInput
  /-- The user breaks the session off. -/
  | interrupt
  deriving DecidableEq, Repr

/-- The ending of a session whose input ends while a prompt stands. -/
def ending : InputEnd → Ending
  | .endOfInput => ⟨0, .out "\n"⟩
  | .interrupt => ⟨130, {}⟩

/-- The ending of a session in which a line has failed. -/
def broken (failure : Failure) : Ending := ⟨1, .err s!"Error: {failure.message}\n"⟩

/-- Prompts and runs lines up to the end of the session or of the input. -/
def run (prompt : String) (inputEnd : InputEnd) : Session → List String → Ending
  | s, [] => if s.isActive then (ending inputEnd).after (.out prompt) else ⟨0, {}⟩
  | s, line :: rest =>
      if s.isActive then
        match step s line with
        | (shown, t, none) => (run prompt inputEnd t rest).after (.out prompt ++ shown)
        | (shown, _, some failure) => (broken failure).after (.out prompt ++ shown)
      else ⟨0, {}⟩

end LineShell.Cli.Repl
