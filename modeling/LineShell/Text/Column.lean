/-!
# Text/Column — filling text up to a width

Widths are counted in characters. Text that is wider than its column is left alone.
-/

namespace LineShell.Text

/-- The text filled on the right with spaces. -/
def padRight (width : Nat) (s : String) : String := s.pushn ' ' (width - s.length)

/-- The text filled on the left with spaces. -/
def padLeft (width : Nat) (s : String) : String :=
  .ofList (List.replicate (width - s.length) ' ') ++ s

end LineShell.Text
