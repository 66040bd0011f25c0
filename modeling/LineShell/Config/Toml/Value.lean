/-!
# Config/Toml/Value — TOML documents

A document is a table: keys with values in the order in which the file first mentions them. Numbers
with a fraction and moments in time keep the text that wrote them.
-/

namespace LineShell.Toml

/-- A TOML value. -/
inductive Value where
  | text (s : String)
  | integer (n : Int)
  | float (written : String)
  | boolean (b : Bool)
  | moment (written : String)
  | array (values : List Value)
  | table (entries : List (String × Value))
  deriving Repr

/-- The entries of a table, in file order. -/
abbrev Table := List (String × Value)

/-- The table under a key, if the key has a table. -/
def Table.table? (t : Table) (key : String) : Option Table :=
  match t.lookup key with
  | some (.table entries) => some entries
  | _ => none

end LineShell.Toml
