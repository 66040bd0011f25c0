import LineShell.Text.Literal

/-!
# Files/Basic — reading files

What a program sees of the file system is a function from paths to contents or causes of failure.
-/

namespace LineShell.Files

/-- The cause for which a file cannot be opened. -/
inductive Fault where
  /-- There is no such file. -/
  | missing
  /-- The path names a directory. -/
  | isDirectory
  /-- The path goes through a file as if it were a directory. -/
  | notDirectory
  /-- The file may not be read. -/
  | denied
  /-- A name in the path, or the path itself, is too long. -/
  | nameTooLong
  deriving DecidableEq, Repr

namespace Fault

/-- The number under which the system knows the cause. -/
def number : Fault → Nat
  | missing => 2
  | isDirectory => 21
  | notDirectory => 20
  | denied => 13
  | nameTooLong => 36

/-- The words by which the system knows the cause. -/
def describe : Fault → String
  | missing => "No such file or directory"
  | isDirectory => "Is a directory"
  | notDirectory => "Not a directory"
  | denied => "Permission denied"
  | nameTooLong => "File name too long"

/-- The sentence that tells about the cause for a path. -/
def message (path : String) (fault : Fault) : String :=
  s!"[Errno {fault.number}] {fault.describe}: {Text.literal path}"

end Fault

/-- The content of the file at a path, or why it cannot be opened. -/
abbrev Reader := String → Except Fault (List UInt8)

end LineShell.Files
