import LineShell.Session.Action

/-!
# Session/Basic — the state of a session and how it runs a line

    line ──tokenize──▸ words ──substitute──▸ name and arguments ──dispatch──▸ exit code

A line that cannot be read leaves a message and nothing else. Any other line with at least one word
is logged before it is substituted and dispatched; the exit code of the command it names becomes
the variable `?`. Every operation returns the session together with its result, so what happened
before a failure is kept.
-/

namespace LineShell

/-- A session with its output, commands, history and variables. -/
structure Session where
  output : Output := {}
  commands : Registry CommandBody := {}
  /-- The exit code of a session that has ended. -/
  exitCode : Option Int := none
  history : Array String := #[]
  vars : Variables

namespace Session

/-- A fresh session. -/
def start (shell user host : String) (commands : Registry CommandBody) : Session :=
  { commands, vars := .initial shell user host }

/-- The session has not ended. -/
def isActive (s : Session) : Bool := s.exitCode.isNone

/-- The name of the shell, as the variable `SHELL` gives it now. -/
def name (s : Session) : String := s.vars.text "SHELL"

/-- The user who is logged in, as the variable `USER` gives it now. -/
def user (s : Session) : String := s.vars.text "USER"

/-- The name of the host, as the variable `HOST` gives it now. -/
def host (s : Session) : String := s.vars.text "HOST"

/-- Records a normal line. -/
def record (s : Session) (text : String) : Session := { s with output := s.output.record text }

/-- Records an error line. -/
def recordError (s : Session) (text : String) : Session :=
  { s with output := s.output.recordError text }

/-- Clears the output. -/
def clear (s : Session) : Session := { s with output := s.output.clear }

/-- Sets a variable. -/
def set (s : Session) (name : String) (value : Value) : Session :=
  { s with vars := s.vars.set name value }

/-- Removes a variable. -/
def unset (s : Session) (name : String) : Session :=
  { s with vars := s.vars.erase name }

/-- Gives every variable its initial value. -/
def reset (s : Session) (shell user host : String) : Session :=
  { s with vars := .initial shell user host }

/-- Ends the session. -/
def exit (s : Session) (code : Int) : Session := { s with exitCode := some code }

/-- Adds a line to the history. -/
def log (s : Session) (line : String) : Session := { s with history := s.history.push line }

/-- What a command body can see of the session. -/
def view (s : Session) : SessionView where
  vars := s.vars
  history := s.history.toList
  exitCode := s.exitCode
  catalogue := s.commands.forget

/-- Registers commands in order, up to the first whose name is taken. -/
def register (s : Session) (commands : List (Command CommandBody)) :
    Except CommandFault Unit × Session :=
  let (result, registry) := s.commands.register commands
  (result, { s with commands := registry })

/-- A word that starts with `$` stands for the text of the variable that the rest of it names. -/
def substitute (t : Variables) (word : String) : String :=
  match word.toList with
  | '$' :: name => t.text (.ofList name)
  | _ => word

/-! ## Running lines

`perform` says how to perform the body of a command; the next section closes the circle. -/

/-- The result of an operation together with the session after it. -/
abbrev Outcome (α : Type) := Except Failure α × Session

/-- Runs the command that a name denotes; `none` means that there is no such command. -/
def dispatchWith (perform : Action → Session → Outcome Int) (s : Session) (name : String)
    (args : List String) : Outcome (Option Int) :=
  match s.commands.find? name with
  | none => (.ok none, s)
  | some c =>
      if c.info.accepts args.length then
        match perform (c.body args) s with
        | (.ok code, t) => (.ok (some code), t)
        | (.error failure, t) => (.error failure, t)
      else (.ok (some 1), s.recordError c.info.wrongCount)

/-- Runs a line whose words are known. -/
def execTokensWith (perform : Action → Session → Outcome Int) (s : Session) (line : String)
    (tokens : List String) : Outcome Unit :=
  if s.isActive then
    match tokens.map (substitute s.vars) with
    | [] => (.ok (), s)
    | word :: args =>
        match dispatchWith perform (s.log line) word args with
        | (.ok (some code), t) => (.ok (), t.set "?" (.int code))
        | (.ok none, t) => (.ok (), t.recordError s!"{t.name}: command not found: {word}")
        | (.error failure, t) => (.error failure, t)
  else (.error .inactive, s)

/-- Runs a line. -/
def execWith (perform : Action → Session → Outcome Int) (s : Session) (line : String) :
    Outcome Unit :=
  if s.isActive then
    match Line.tokenize line with
    | .ok tokens => execTokensWith perform s line tokens
    | .error fault => (.ok (), s.recordError s!"{s.name}: syntax error: {fault.message}")
  else (.error .inactive, s)

end Session

/-! ## Performing command bodies -/

namespace Action

open Session

/-- Performs a body; `perform` is used for the bodies of the lines that it runs. -/
def performWith (perform : Action → Session → Outcome Int) : Action → Session → Outcome Int
  | done code, s => (.ok code, s)
  | fail cause, s => (.error cause, s)
  | inspect next, s => (next s.view).performWith perform s
  | record line next, s =>
      next.performWith perform (if line.isError then s.recordError line.text else s.record line.text)
  | clear next, s => next.performWith perform s.clear
  | set name value next, s => next.performWith perform (s.set name value)
  | unset name next, s => next.performWith perform (s.unset name)
  | reset shell user host next, s => next.performWith perform (s.reset shell user host)
  | exit code next, s => next.performWith perform (s.exit code)
  | exec line next, s =>
      match s.execWith perform line with
      | (.ok (), t) => (next none).performWith perform t
      | (.error failure, t) => (next (some failure)).performWith perform t
  | execTokens line tokens next, s =>
      match s.execTokensWith perform line tokens with
      | (.ok (), t) => (next none).performWith perform t
      | (.error failure, t) => (next (some failure)).performWith perform t

/-- Performs a body, with at most `depth` bodies under way at once. -/
def perform : (depth : Nat) → Action → Session → Outcome Int
  | 0, _, s => (.error .nestingTooDeep, s)
  | depth + 1, a, s => a.performWith (perform depth) s

end Action

namespace Session

/-- How many command bodies may be under way at once. -/
def nestingLimit : Nat := 200

/-- Runs the command that a name denotes; `none` means that there is no such command. -/
def dispatch (s : Session) (name : String) (args : List String) : Outcome (Option Int) :=
  s.dispatchWith (Action.perform nestingLimit) name args

/-- Runs a line whose words are known. -/
def execTokens (s : Session) (line : String) (tokens : List String) : Outcome Unit :=
  s.execTokensWith (Action.perform nestingLimit) line tokens

/-- Runs a line. -/
def exec (s : Session) (line : String) : Outcome Unit :=
  s.execWith (Action.perform nestingLimit) line

end Session

end LineShell
