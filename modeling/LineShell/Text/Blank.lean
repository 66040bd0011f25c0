/-!
# Text/Blank — the characters that separate words

The blank characters are the Unicode spaces, the line and paragraph separators, and the control
characters `U+0009`–`U+000D`, `U+001C`–`U+001F` and `U+0085`. Quotes, the backslash, `#` and `$`
are not blank, which is what the scanner's rules rely on.
-/

namespace LineShell.Text

/-- The character separates words. -/
def isBlank (c : Char) : Bool :=
  let n := c.toNat
  (0x9 ≤ n && n ≤ 0xd) || (0x1c ≤ n && n ≤ 0x20) || n == 0x85 || n == 0xa0 || n == 0x1680 ||
    (0x2000 ≤ n && n ≤ 0x200a) || n == 0x2028 || n == 0x2029 || n == 0x202f || n == 0x205f ||
    n == 0x3000

theorem isBlank_space : isBlank ' ' = true := by decide

theorem isBlank_newline : isBlank '\n' = true := by decide

theorem isBlank_backslash : isBlank '\\' = false := by decide

theorem isBlank_doubleQuote : isBlank '"' = false := by decide

theorem isBlank_singleQuote : isBlank '\'' = false := by decide

/-- Every ASCII whitespace character is blank. -/
theorem isBlank_of_isWhitespace {c : Char} (h : c.isWhitespace = true) : isBlank c = true := by
  simp only [Char.isWhitespace, Bool.or_eq_true, decide_eq_true_eq] at h
  rcases h with ((rfl | rfl) | rfl) | rfl <;> decide

/-- The text without its leading blanks. -/
def dropBlanks : List Char → List Char
  | [] => []
  | c :: rest => if isBlank c then dropBlanks rest else c :: rest

theorem dropBlanks_eq_nil_iff : ∀ {cs : List Char},
    dropBlanks cs = [] ↔ ∀ c ∈ cs, isBlank c = true
  | [] => by simp [dropBlanks]
  | c :: rest => by
      have ih : dropBlanks rest = [] ↔ ∀ c ∈ rest, isBlank c = true := dropBlanks_eq_nil_iff
      by_cases h : isBlank c = true
      · simp [dropBlanks, h, ih]
      · simp [dropBlanks, h]

end LineShell.Text
