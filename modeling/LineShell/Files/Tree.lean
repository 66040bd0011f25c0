import LineShell.Files.Basic
import LineShell.Text.Lines

/-!
# Files/Tree — a directory tree

A tree lists its files and directories by their paths from the root. A path is resolved one name
after the other; every name but the last must lead to a directory, no name and no path is longer
than its limit in bytes, and a path that climbs above the root finds nothing there but directories
without names.
-/

namespace LineShell.Files

/-- What stands at a place in a tree. -/
inductive Entry where
  | file (content : List UInt8)
  | directory
  deriving DecidableEq, Repr

/-- A place that a path has reached. -/
inductive Place where
  /-- A place in the tree, by the names that lead to it from the root. -/
  | within (names : List String)
  /-- A directory above the root. -/
  | above
  deriving DecidableEq, Repr

/-- A directory tree. -/
structure Tree where
  entries : List (List String × Entry) := []
  deriving Repr

namespace Tree

/-- The directories that lead to a place below the root. -/
def parents (names : List String) : List (List String) :=
  (List.range (names.length - 1)).map fun n => names.take (n + 1)

/-- Adds what stands at a path, with the directories that lead to it. -/
def insert (t : Tree) (path : String) (entry : Entry) : Tree :=
  let names := (Text.pieces '/' path).filter fun name => name ≠ "" ∧ name ≠ "."
  ⟨t.entries ++ (parents names).map (·, .directory) ++ [(names, entry)]⟩

/-- What stands at the place that names lead to from the root. -/
def at? (t : Tree) (names : List String) : Option Entry :=
  if names = [] then some .directory else t.entries.lookup names

/-- What stands at a place. -/
def atPlace? (t : Tree) : Place → Option Entry
  | .within names => t.at? names
  | .above => some .directory

/-- The greatest length of a name, in bytes. -/
def nameLimit : Nat := 255

/-- The greatest length of a path, in bytes. -/
def pathLimit : Nat := 4095

/-- Goes from a place along one name of a path. -/
def follow (t : Tree) (place : Place) (name : String) : Except Fault Place :=
  match t.atPlace? place with
  | none => .error .missing
  | some (.file _) => .error .notDirectory
  | some .directory =>
      if name = "" ∨ name = "." then .ok place
      else if nameLimit < name.utf8ByteSize then .error .nameTooLong
      else match place with
        | .above => if name = ".." then .ok .above else .error .missing
        | .within [] => if name = ".." then .ok .above else .ok (.within [name])
        | .within names =>
            if name = ".." then .ok (.within names.dropLast) else .ok (.within (names ++ [name]))

/-- Goes from a place along the names of a path. -/
def followAll (t : Tree) : Place → List String → Except Fault Place
  | place, [] => .ok place
  | place, name :: rest =>
      match t.follow place name with
      | .ok next => t.followAll next rest
      | .error fault => .error fault

/-- The content of the file at a path from the root. -/
def read (t : Tree) : Reader := fun path =>
  if path = "" ∨ path.toList.contains '\x00' then .error .missing
  else if pathLimit < path.utf8ByteSize then .error .nameTooLong
  else
    let start := if path.startsWith "/" then .above else .within []
    match t.followAll start (Text.pieces '/' path) with
    | .error fault => .error fault
    | .ok place =>
        match t.atPlace? place with
        | none => .error .missing
        | some .directory => .error .isDirectory
        | some (.file content) => .ok content

end Tree

end LineShell.Files
