import LineShell.Text.Hex

/-!
# Config/Toml/Quoted — quoted text

Text in double quotes has escapes, text in single quotes has none. Tripled quotes let text run over
several lines: a line feed right after them is dropped, one or two quotes may stand before the
closing ones, and in double quotes a backslash at the end of a line swallows the space that follows.
-/

namespace LineShell.Toml

/-- The character is a control character that may not stand in text. -/
def isControl (c : Char) : Bool := (c.toNat < 0x20 && c != '\t') || c.toNat == 0x7f

/-- The character is white space or a line feed. -/
def isGap (c : Char) : Bool := c == ' ' || c == '\t' || c == '\n'

/-- Only white space stands before the next line feed. -/
def endsLine : List Char → Bool
  | '\n' :: _ => true
  | ' ' :: rest => endsLine rest
  | '\t' :: rest => endsLine rest
  | _ => false

/-- The character that hexadecimal digits name. -/
def named? (digits : List Char) : Option Char := do
  let n ← Text.ofHex? digits
  if n < 0xd800 ∨ (0xdfff < n ∧ n < 0x110000) then some (Char.ofNat n) else none

/-- The character of a short escape. -/
def escaped? : Char → Option Char
  | 'b' => some '\x08'
  | 't' => some '\t'
  | 'n' => some '\n'
  | 'f' => some '\x0c'
  | 'r' => some '\r'
  | '"' => some '"'
  | '\\' => some '\\'
  | _ => none

/-- Text and what follows it, with a character in front of the text. -/
def consText (c : Char) (read : Option (List Char × List Char)) : Option (List Char × List Char) :=
  read.map fun (body, after) => (c :: body, after)

/-- What follows a quote that stands in tripled quotes: the close, if two more follow. -/
def closeTripled? (quote : Char) : List Char → Option (List Char × List Char)
  | a :: b :: rest =>
      if a = quote ∧ b = quote then
        match rest with
        | c :: d :: after =>
            if c = quote then
              if d = quote then some ([quote, quote], after) else some ([quote], d :: after)
            else some ([], rest)
        | [c] => if c = quote then some ([quote], []) else some ([], rest)
        | [] => some ([], [])
      else none
  | _ => none

/-- Reads text after its opening double quotes; `skipping` says that white space is swallowed. -/
def basicBody (tripled : Bool) : (skipping : Bool) → List Char → Option (List Char × List Char)
  | _, [] => none
  | skipping, c :: rest =>
      if skipping && isGap c then basicBody tripled true rest
      else if c = '"' then
        if tripled then
          match closeTripled? '"' rest with
          | some closed => some closed
          | none => consText c (basicBody tripled false rest)
        else some ([], rest)
      else if c = '\\' then
        if tripled && endsLine rest then basicBody tripled true rest
        else match rest with
          | 'u' :: h₁ :: h₂ :: h₃ :: h₄ :: after =>
              (named? [h₁, h₂, h₃, h₄]).bind fun d => consText d (basicBody tripled false after)
          | 'U' :: h₁ :: h₂ :: h₃ :: h₄ :: h₅ :: h₆ :: h₇ :: h₈ :: after =>
              (named? [h₁, h₂, h₃, h₄, h₅, h₆, h₇, h₈]).bind fun d =>
                consText d (basicBody tripled false after)
          | e :: after => (escaped? e).bind fun d => consText d (basicBody tripled false after)
          | [] => none
      else if isControl c && !(tripled && c == '\n') then none
      else consText c (basicBody tripled false rest)

/-- Reads text after its opening single quotes. -/
def literalBody (tripled : Bool) : List Char → Option (List Char × List Char)
  | [] => none
  | c :: rest =>
      if c = '\'' then
        if tripled then
          match closeTripled? '\'' rest with
          | some closed => some closed
          | none => consText c (literalBody tripled rest)
        else some ([], rest)
      else if isControl c && !(tripled && c == '\n') then none
      else consText c (literalBody tripled rest)

/-- The text without a line feed at its start. -/
def dropBreak : List Char → List Char
  | '\n' :: rest => rest
  | cs => cs

/-- Reads text in single-line quotes. -/
def lineText? : List Char → Option (List Char × List Char)
  | '"' :: rest => basicBody false false rest
  | '\'' :: rest => literalBody false rest
  | _ => none

/-- Reads text in any quotes. -/
def text? : List Char → Option (List Char × List Char)
  | '"' :: '"' :: '"' :: rest => basicBody true false (dropBreak rest)
  | '\'' :: '\'' :: '\'' :: rest => literalBody true (dropBreak rest)
  | cs => lineText? cs

end LineShell.Toml
