import LineShell.Main
import LineShell.Files.Tree
import LineShell.Config.Template.Writing
import LineShell.Proofs.Line.Viability
import LineShell.Proofs.Line.Joining
import LineShell.Proofs.Line.Tracing
import LineShell.Proofs.Line.Slots
import LineShell.Proofs.Line.Renaming
import LineShell.Proofs.Session.Bodies
import LineShell.Proofs.Session.Answers
import LineShell.Proofs.Session.Steps
import LineShell.Proofs.Session.Invariant
import LineShell.Proofs.Session.Declared
import LineShell.Proofs.Session.Attempts
import LineShell.Proofs.Session.Printing
import LineShell.Proofs.Session.Registration
import LineShell.Proofs.Session.Manual
import LineShell.Proofs.Script.Turns
import LineShell.Proofs.Script.Typed
import LineShell.Proofs.Script.Account
import LineShell.Proofs.Script.Report
import LineShell.Proofs.Script.Operations
import LineShell.Proofs.Script.Ended
import LineShell.Proofs.Script.History
import LineShell.Proofs.Cli.Scripts
import LineShell.Proofs.Cli.Interactive
import LineShell.Proofs.Text.Utf8
import LineShell.Proofs.Text.Escaping
import LineShell.Proofs.Text.Console
import LineShell.Proofs.Script.Files
import LineShell.Proofs.Session.Edits
import LineShell.Proofs.Session.Writes
import LineShell.Proofs.Script.Variables
import LineShell.Proofs.Config.Distinct
import LineShell.Proofs.Config.Loading
import LineShell.Proofs.Config.Heeding
import LineShell.Proofs.Config.Prompt
import LineShell.Proofs.Script.Blank
import LineShell.Proofs.Text.Kept
import LineShell.Proofs.Cli.Tokens
import LineShell.Proofs.Cli.Trace
