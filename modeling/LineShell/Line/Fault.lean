import LineShell.Text.Literal

/-!
# Line/Fault — why a line cannot be read

There are five causes. The first three name a character that no continuation of the line could
mend; the last two say that the line stops too early.
-/

namespace LineShell.Line

/-- The cause for which a line is rejected. -/
inductive Fault where
  /-- A quote opens after the ordinary characters of a word. -/
  | prematureQuote
  /-- Something other than a blank follows a closed quote block. -/
  | missingBlank
  /-- A backslash stands before a character that cannot be escaped. -/
  | illegalEscape (c : Char)
  /-- The line ends inside a quote block. -/
  | unterminatedQuote
  /-- The line ends in a backslash that escapes nothing. -/
  | hangingEscape
  deriving DecidableEq, Repr

namespace Fault

/-- The name under which a script report lists the cause. -/
def name : Fault → String
  | prematureQuote => "PrematureQuote"
  | missingBlank => "MissingWhitespaceAfterQuote"
  | illegalEscape _ => "IllegalEscape"
  | unterminatedQuote => "UnterminatedQuote"
  | hangingEscape => "HangingEscape"

/-- The sentence that tells the user about the cause. -/
def message : Fault → String
  | prematureQuote => "quote block cannot start mid-word"
  | missingBlank => "whitespace must immediately follow a closed quote block"
  | illegalEscape c =>
      "only a quote or backslash may be escaped, not " ++ Text.literal (String.singleton c)
  | unterminatedQuote => "command cannot end with an unterminated quote"
  | hangingEscape => "command cannot end with a hanging escape"

end Fault

end LineShell.Line
