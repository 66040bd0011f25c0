import LineShell.Session.Action
import LineShell.Text.Column
import LineShell.Text.Lines

/-!
# Session/Builtin — the commands every session starts with

`man` shows the manual of all or of some commands, `declare` lists the variables or sets one,
`unset` removes one, and `history` lists the lines run so far, itself included. Their exit codes
are zero and one.
-/

namespace LineShell.Builtin

/-- The width of the usage column in a manual. -/
def usageWidth : Nat := 23

/-- The width of the number column in a history. -/
def numberWidth : Nat := 5

/-- The line that a manual shows for a command. -/
def manualLine (info : CommandInfo) : String :=
  "  " ++ Text.padRight usageWidth info.usage ++ info.description

/-- The complaint about names that a manual does not know. -/
def noEntry (names : List String) : String :=
  "  No manual entry for command(s): '" ++ "', '".intercalate names ++ "'"

/-- Numbers the lines of a history from one. -/
def historyLines (lines : List String) : List String :=
  lines.zipIdx.map fun (line, i) => Text.padLeft numberWidth (toString (i + 1)) ++ "  " ++ line

/-- Shows the manual lines of some commands. -/
def manualOf (r : Registry Unit) (next : Action) : Action :=
  .recordAll (r.commands.map fun c => manualLine c.info) next

/-- Shows usage and description of all commands, or of those named. -/
def man : CommandBody := fun args =>
  .inspect fun view =>
    match args with
    | [] => .record ⟨"  Manual", false⟩ (manualOf view.catalogue (.done 0))
    | _ :: _ =>
        let (found, missing) := view.catalogue.subset args
        manualOf found
          (if missing = [] then .done 0 else .record ⟨noEntry missing, true⟩ (.done 1))

/-- The complaint about a declaration with more than one `=`. -/
def manyEquals : String :=
  "Invalid syntax. The '=' operator should only be used between the name and value."

/-- Lists the variables, or sets the one that `name=value` or `name` declares. -/
def declare : CommandBody
  | [] => .inspect fun view => .recordAll view.vars.listing (.done 0)
  | declaration :: _ =>
      match Text.pieces '=' declaration with
      | [name] => .set name (.text "") (.done 0)
      | [name, value] => .set name (.text value) (.done 0)
      | _ => .record ⟨manyEquals, true⟩ (.done 1)

/-- Removes the variable that is named. -/
def unset : CommandBody
  | [] => .done 0
  | name :: _ => .unset name (.done 0)

/-- Lists the lines of the history. -/
def history : CommandBody := fun _ =>
  .inspect fun view => .recordAll (historyLines view.history) (.done 0)

/-- The commands every session starts with, in the order in which a manual shows them. -/
def commands : List (Command CommandBody) := [
  { info := {
      name := "man", usage := "man [commands...]",
      description := "Displays information about all commands or a specific given list of commands." }
    body := man },
  { info := {
      name := "declare", usage := "declare [name=value]",
      description := "Declares a variable or displays existing variables.",
      minArgs := 0, maxArgs := some 1 }
    body := declare },
  { info := {
      name := "unset", usage := "unset <name>",
      description := "Unsets a variable with the given name.", minArgs := 1, maxArgs := some 1 }
    body := unset },
  { info := {
      name := "history", usage := "history",
      description := "Lists the commands run in this session.", minArgs := 0, maxArgs := some 0 }
    body := history }]

/-- The registry of the commands every session starts with. -/
def registry : Registry CommandBody where
  commands := commands
  nodup := by decide

theorem registry_names : registry.names = ["man", "declare", "unset", "history"] := rfl

/-- What holds of `man`, `declare`, `unset` and `history` holds of every command. -/
theorem forall_mem_registry {P : Command CommandBody → Prop} (man : P commands[0])
    (declare : P commands[1]) (unset : P commands[2]) (history : P commands[3]) :
    ∀ c ∈ registry.commands, P c := by
  simpa [registry, commands] using And.intro man ⟨declare, unset, history⟩

end LineShell.Builtin
