import LineShell.Config.Toml.Value

/-!
# Config/Toml/Tree — tables under construction

While a document is read, a table remembers how it came to be: through a header that names it,
through a header that names a table inside it, or through a dotted key. This decides which later
statements may add to it. A table is named by one header only and grows by dotted keys only if none
names it, a key is bound once, and what a value holds is closed.
-/

namespace LineShell.Toml

/-- How a table came to be. -/
inductive Origin where
  /-- A header names it. -/
  | header
  /-- A header names a table inside it. -/
  | passed
  /-- A dotted key leads through it. -/
  | dotted
  deriving DecidableEq, Repr

/-- What a key is bound to while a document is read. -/
inductive Node where
  /-- A closed value. -/
  | value (v : Value)
  /-- A table that may grow. -/
  | table (origin : Origin) (entries : List (String × Node))
  /-- Tables under one repeated header, of which the last may grow. -/
  | tables (done : List (List (String × Node))) (last : List (String × Node))

/-- The entries of a table under construction. -/
abbrev Nodes := List (String × Node)

namespace Nodes

/-- Binds a key, in its old place if it has one. -/
def put (key : String) (node : Node) : Nodes → Nodes
  | [] => [(key, node)]
  | entry :: rest => if entry.1 = key then (key, node) :: rest else entry :: put key node rest

/-- Changes the table at the end of a header's path, making the tables that lead to it. -/
def underHeader (change : Nodes → Option Nodes) : List String → Nodes → Option Nodes
  | [], nodes => change nodes
  | key :: path, nodes =>
      match nodes.lookup key with
      | none => (underHeader change path []).map fun sub => put key (.table .passed sub) nodes
      | some (.table origin sub) =>
          (underHeader change path sub).map fun sub => put key (.table origin sub) nodes
      | some (.tables done last) =>
          (underHeader change path last).map fun last => put key (.tables done last) nodes
      | some (.value _) => none

/-- Names a table by a header. -/
def openTable (key : String) (nodes : Nodes) : Option Nodes :=
  match nodes.lookup key with
  | none => some (put key (.table .header []) nodes)
  | some (.table .passed sub) => some (put key (.table .header sub) nodes)
  | some _ => none

/-- Names one more table by a repeated header. -/
def openNext (key : String) (nodes : Nodes) : Option Nodes :=
  match nodes.lookup key with
  | none => some (put key (.tables [] []) nodes)
  | some (.tables done last) => some (put key (.tables (done ++ [last]) []) nodes)
  | some _ => none

/-- Binds the key at the end of a dotted path, making the tables that lead to it. -/
def bind (v : Value) : (path : List String) → (key : String) → Nodes → Option Nodes
  | [], key, nodes => if (nodes.lookup key).isSome then none else some (put key (.value v) nodes)
  | first :: path, key, nodes =>
      match nodes.lookup first with
      | none => (bind v path key []).map fun sub => put first (.table .dotted sub) nodes
      | some (.table origin sub) =>
          if origin = .header then none
          else (bind v path key sub).map fun sub => put first (.table .dotted sub) nodes
      | some _ => none

end Nodes

/-! ## Finished tables -/

mutual

/-- The value of a node that grows no more. -/
def Node.toValue : Node → Value
  | .value v => v
  | .table _ entries => .table (toTable entries)
  | .tables done last => .array (toTables done ++ [.table (toTable last)])

/-- The table of entries that grow no more. -/
def toTable : List (String × Node) → Table
  | [] => []
  | (key, node) :: rest => (key, node.toValue) :: toTable rest

/-- The tables of lists of entries that grow no more. -/
def toTables : List (List (String × Node)) → List Value
  | [] => []
  | entries :: rest => .table (toTable entries) :: toTables rest

end

end LineShell.Toml
