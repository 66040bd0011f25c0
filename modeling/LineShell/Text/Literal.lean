import LineShell.Text.Hex
import LineShell.Text.Printable

/-!
# Text/Literal — text as a quoted literal

A literal stands in single quotes, or in double quotes when the text holds a single quote and no
double quote. The delimiter and the backslash are escaped, tab, line feed and carriage return have
short escapes, and every other unprintable character is written by its code point.
-/

namespace LineShell.Text

/-- A code point in the shortest of the forms `\xNN`, `\uNNNN` and `\UNNNNNNNN`. -/
def codePointEscape (c : Char) : List Char :=
  let n := c.toNat
  if n < 0x100 then '\\' :: 'x' :: toHex 2 n
  else if n < 0x10000 then '\\' :: 'u' :: toHex 4 n
  else '\\' :: 'U' :: toHex 8 n

/-- The quote character around a literal. -/
def delimiter (cs : List Char) : Char :=
  if cs.contains '\'' && !cs.contains '"' then '"' else '\''

/-- One character inside a literal that `quote` delimits; `plain` says which stand as themselves. -/
def literalChar (plain : Char → Bool) (quote c : Char) : List Char :=
  if c == quote || c == '\\' then ['\\', c]
  else if c == '\t' then ['\\', 't']
  else if c == '\n' then ['\\', 'n']
  else if c == '\r' then ['\\', 'r']
  else if plain c then [c]
  else codePointEscape c

/-- The literal of a text, with `plain` saying which characters stand as themselves. -/
def literalWith (plain : Char → Bool) (cs : List Char) : List Char :=
  let quote := delimiter cs
  quote :: cs.flatMap (literalChar plain quote) ++ [quote]

/-- The quoted literal of a text. -/
def literal (s : String) : String := .ofList (literalWith isPrintable s.toList)

/-- The quoted literal of a text in ASCII characters only. -/
def asciiLiteral (s : String) : String :=
  .ofList (literalWith (fun c => isPrintable c && c.toNat < 0x80) s.toList)

theorem literal_plain : literal "q" = "'q'" := by decide +kernel

theorem literal_apostrophe : literal "it's" = "\"it's\"" := by decide +kernel

theorem literal_both_quotes : literal "a\"b'c" = "'a\"b\\'c'" := by decide +kernel

end LineShell.Text
