import LineShell.Text.Literal

/-!
# Config/Template/Fault — why a template cannot be filled

A fault belongs to one of six kinds: an unknown field, a position out of range, a malformed template
or format, an index that is no position, an unknown attribute, and a field too wide to be built.
-/

namespace LineShell.Template

/-- A format option that numbers know and text does not. -/
inductive NumberOption where
  | space
  | sign
  | negativeZero
  | alternate
  | equalsAlignment
  deriving DecidableEq, Repr

/-- The cause for which a template cannot be filled. -/
inductive Fault where
  /-- A field has no value. -/
  | unknownField (name : String)
  /-- A field is given by position, and there are none. -/
  | noPosition (n : Nat)
  /-- An index is past the end of a text. -/
  | indexOutOfRange
  /-- An index is no number. -/
  | notAnIndex
  /-- A text has no such attribute. -/
  | noAttribute (name : String)
  /-- An opening brace ends the template. -/
  | singleOpen
  /-- A closing brace closes nothing. -/
  | singleClose
  /-- An opening brace stands in the name of a field. -/
  | openInName
  /-- A field is not closed. -/
  | unclosed
  /-- The template ends where a conversion should stand. -/
  | noConversion
  /-- A conversion is followed by something other than a colon. -/
  | noColon
  /-- A format is not closed. -/
  | unclosedFormat
  /-- An attribute or index is empty. -/
  | emptyAccess
  /-- Something other than `.` or `[` follows an index. -/
  | badAccess
  /-- A position, width or precision is too large. -/
  | tooManyDigits
  /-- A conversion is not known. -/
  | unknownConversion (c : Char)
  /-- Formats nest too deeply. -/
  | nestedTooDeep
  /-- Both thousands separators are given. -/
  | bothSeparators
  /-- A thousands separator is given with a kind of format that has none. -/
  | noSeparator (separator kind : Char)
  /-- A point is not followed by a precision. -/
  | noPrecision
  /-- More than a kind is left at the end of a format. -/
  | badFormat (format : String)
  /-- The kind of a format is not known. -/
  | unknownKind (kind : Char)
  /-- A field is too wide to be built. -/
  | tooWide
  /-- An option is given that text does not have. -/
  | numberOnly (option : NumberOption)
  deriving DecidableEq, Repr

namespace NumberOption

/-- The complaint about an option. -/
def complaint : NumberOption → String
  | space => "Space not allowed"
  | sign => "Sign not allowed"
  | negativeZero => "Negative zero coercion (z) not allowed"
  | alternate => "Alternate form (#) not allowed"
  | equalsAlignment => "'=' alignment not allowed"

end NumberOption

namespace Fault

/-- The lower-case hexadecimal digits of a number, without leading zeros. -/
def hexOf (n : Nat) : String := .ofList (Nat.toDigits 16 n)

/-- A character as a message shows it: by its code point unless it is visible and below `limit`. -/
def visible (limit : Nat) (c : Char) : String :=
  if 0x20 < c.toNat ∧ c.toNat < limit then String.singleton c else "\\x" ++ hexOf c.toNat

/-- The sentence that tells about the cause. -/
def message : Fault → String
  | unknownField name => Text.literal name
  | noPosition n => s!"Replacement index {n} out of range for positional args tuple"
  | indexOutOfRange => "string index out of range"
  | notAnIndex => "string indices must be integers, not 'str'"
  | noAttribute name => s!"'str' object has no attribute '{name}'"
  | singleOpen => "Single '\x7b' encountered in format string"
  | singleClose => "Single '\x7d' encountered in format string"
  | openInName => "unexpected '\x7b' in field name"
  | unclosed => "expected '\x7d' before end of string"
  | noConversion => "end of string while looking for conversion specifier"
  | noColon => "expected ':' after conversion specifier"
  | unclosedFormat => "unmatched '\x7b' in format spec"
  | emptyAccess => "Empty attribute in format string"
  | badAccess => "Only '.' or '[' may follow ']' in format field specifier"
  | tooManyDigits => "Too many decimal digits in format string"
  | unknownConversion c => "Unknown conversion specifier " ++ visible 0x7f c
  | nestedTooDeep => "Max string recursion exceeded"
  | bothSeparators => "Cannot specify both ',' and '_'."
  | noSeparator separator kind =>
      "Cannot specify '" ++ String.singleton separator ++ "' with '" ++ visible 0x80 kind ++ "'."
  | noPrecision => "Format specifier missing precision"
  | badFormat format => s!"Invalid format specifier '{format}' for object of type 'str'"
  | unknownKind kind =>
      "Unknown format code '" ++ visible 0x80 kind ++ "' for object of type 'str'"
  | tooWide => ""
  | numberOnly option => option.complaint ++ " in string format specifier"

end Fault

end LineShell.Template
