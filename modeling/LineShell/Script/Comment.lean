import LineShell.Text.Blank

/-!
# Script/Comment — the lines that a script skips

A line is skipped when it holds nothing but blanks or when its first character that is not blank is
the number sign.
-/

namespace LineShell.Script

/-- The line is blank or a comment. -/
def isComment (line : String) : Bool :=
  match Text.dropBlanks line.toList with
  | [] => true
  | c :: _ => c == '#'

end LineShell.Script
