import LineShell.Text.Markup

/-!
# Text/Console — what a console shows of a line

A console drops the control characters that would move its cursor and fills each tab with spaces up
to the next multiple of eight columns. Text without tabs and such control characters is shown as
the markup renders it.
-/

namespace LineShell.Text

/-- The character would move the cursor or ring the bell: a console drops it. -/
def isCursorControl (c : Char) : Bool :=
  c == '\x07' || c == '\x08' || c == '\x0b' || c == '\x0c' || c == '\r'

/-- The columns that a character takes; control characters take none. -/
def columns (c : Char) : Nat :=
  if c.toNat < 0x20 || (0x7f ≤ c.toNat && c.toNat < 0xa0) then 0 else 1

/-- The columns between two tab stops. -/
def tabStop : Nat := 8

/-- Fills tabs with spaces; `column` is where the text starts on its line. -/
def expandTabs : (column : Nat) → List Char → List Char
  | _, [] => []
  | column, c :: rest =>
      if c = '\t' then
        let width := tabStop - column % tabStop
        List.replicate width ' ' ++ expandTabs (column + width) rest
      else if c = '\n' then c :: expandTabs 0 rest
      else c :: expandTabs (column + columns c) rest

/-- What a console shows of text whose markup is rendered. -/
def showPlain (cs : List Char) : List Char :=
  expandTabs 0 (cs.filter (!isCursorControl ·))

/-- What a console shows of a text with markup. -/
def showMarkup (cs : List Char) : List Char := showPlain (renderMarkup cs)

/-- What a console shows of a text none of whose tags is a style tag. -/
def showText (s : String) : String := .ofList (showMarkup (escapeMarkup s.toList))

/-- What a console shows of an error text, which it sets in red. -/
def showError (s : String) : String :=
  .ofList (showMarkup ("[red]".toList ++ escapeMarkup s.toList ++ "[/red]".toList))

end LineShell.Text
