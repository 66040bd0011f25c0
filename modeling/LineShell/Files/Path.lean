import LineShell.Text.Lines

/-!
# Files/Path — the normal form of a path

Normalising drops empty names and `.` but keeps `..`, since a link may stand before it. One or more
than two slashes in front count as one, exactly two stay, and the empty path is `.`.
-/

namespace LineShell.Files

/-- The slashes that stay in front of a normal path. -/
def rootOf : List Char → String
  | '/' :: '/' :: '/' :: _ => "/"
  | '/' :: '/' :: _ => "//"
  | '/' :: _ => "/"
  | _ => ""

/-- The normal form of a path. -/
def normalPath (path : String) : String :=
  let names := (Text.pieces '/' path).filter fun name => name ≠ "" ∧ name ≠ "."
  let normal := rootOf path.toList ++ "/".intercalate names
  if normal = "" then "." else normal

end LineShell.Files
