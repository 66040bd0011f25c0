import LineShell.Line.Scan
import LineShell.Session.Output
import LineShell.Session.Registry
import LineShell.Session.Variables

/-!
# Session/Action — what the body of a command may do

The body of a command is a tree of the operations that a session offers: it looks at the session,
prints, sets variables, ends the session or runs further lines, and finally returns an exit code or
fails. Since a body can act in no other way, what holds of every operation holds of every command.
-/

namespace LineShell

/-- The cause for which an operation on a session fails. -/
inductive Failure where
  /-- The session has already ended. -/
  | inactive
  /-- The command has no body of its own. -/
  | unimplemented
  /-- Lines run lines too deeply. -/
  | nestingTooDeep
  /-- A body gives up for a reason of its own. -/
  | aborted (reason : String)
  deriving DecidableEq, Repr

namespace Failure

/-- The sentence that tells about the cause. -/
def message : Failure → String
  | inactive => "Inactive shell cannot execute a command"
  | unimplemented => ""
  | nestingTooDeep => "Lines run lines too deeply"
  | aborted reason => reason

end Failure

/-- What the body of a command can see of the session that runs it. -/
structure SessionView where
  vars : Variables
  history : List String
  exitCode : Option Int
  catalogue : Registry Unit

/-- The operations of a command body, in the order in which it performs them. -/
inductive Action where
  /-- Returns an exit code. -/
  | done (code : Int)
  /-- Fails. -/
  | fail (cause : Failure)
  /-- Looks at the session. -/
  | inspect (next : SessionView → Action)
  /-- Prints a line. -/
  | record (line : OutputLine) (next : Action)
  /-- Clears the output. -/
  | clear (next : Action)
  /-- Sets a variable. -/
  | set (name : String) (value : Value) (next : Action)
  /-- Removes a variable. -/
  | unset (name : String) (next : Action)
  /-- Resets all variables for a shell name, a user and a host. -/
  | reset (shell user host : String) (next : Action)
  /-- Ends the session. -/
  | exit (code : Int) (next : Action)
  /-- Runs a line and goes on with the failure it met, if any. -/
  | exec (line : String) (next : Option Failure → Action)
  /-- Runs a line whose words are known, and goes on with the failure it met, if any. -/
  | execTokens (line : String) (tokens : List String) (next : Option Failure → Action)

namespace Action

/-- Prints normal lines and goes on. -/
def recordAll (lines : List String) (next : Action) : Action :=
  lines.foldr (fun text rest => .record ⟨text, false⟩ rest) next

/-- Runs lines in order, failing as soon as one fails. -/
def execAll (lines : List String) (next : Action) : Action :=
  lines.foldr (fun line rest => .exec line fun failure? => failure?.elim rest .fail) next

end Action

/-- The body of a command: what it does with its arguments. -/
abbrev CommandBody := List String → Action

end LineShell
