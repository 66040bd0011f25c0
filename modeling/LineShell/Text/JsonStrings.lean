import LineShell.Text.Hex

/-!
# Text/JsonStrings — lists of texts as JSON

`writeList` writes a list of texts as a JSON array in printable ASCII: quotes and backslashes are
escaped, five control characters have short escapes, and everything else outside `U+0020`–`U+007E`
is written in UTF-16 units, so a character past `U+FFFF` becomes a surrogate pair. `readList?` reads
any JSON array of strings, pairs combined.
-/

namespace LineShell.Text

/-! ## Writing -/

/-- A UTF-16 unit as `\uNNNN`. -/
def unitEscape (n : Nat) : List Char := '\\' :: 'u' :: toHex 4 n

/-- One character inside a JSON string. -/
def jsonChar (c : Char) : List Char :=
  let n := c.toNat
  if c = '"' then ['\\', '"']
  else if c = '\\' then ['\\', '\\']
  else if c = '\n' then ['\\', 'n']
  else if c = '\r' then ['\\', 'r']
  else if c = '\t' then ['\\', 't']
  else if c = '\x0c' then ['\\', 'f']
  else if c = '\x08' then ['\\', 'b']
  else if 0x20 ≤ n ∧ n ≤ 0x7e then [c]
  else if n < 0x10000 then unitEscape n
  else unitEscape (0xd800 + (n - 0x10000) / 0x400) ++ unitEscape (0xdc00 + (n - 0x10000) % 0x400)

/-- A text as a JSON string. -/
def writeString (s : String) : List Char := '"' :: s.toList.flatMap jsonChar ++ ['"']

/-- The elements of an array, separated by a comma and a space. -/
def writeElements : List String → List Char
  | [] => []
  | [s] => writeString s
  | s :: rest => writeString s ++ ',' :: ' ' :: writeElements rest

/-- A list of texts as a JSON array. -/
def writeList (ss : List String) : List Char := '[' :: writeElements ss ++ [']']

/-- A list of texts as a JSON array. -/
def jsonList (ss : List String) : String := .ofList (writeList ss)

/-! ## Reading -/

/-- A unit of a JSON string: a character, or a UTF-16 unit written by number. -/
inductive JsonUnit where
  | char (c : Char)
  | code (n : Nat)
  deriving DecidableEq, Repr

/-- The character that follows a backslash in a short escape. -/
def shortEscape? : Char → Option Char
  | '"' => some '"'
  | '\\' => some '\\'
  | '/' => some '/'
  | 'n' => some '\n'
  | 'r' => some '\r'
  | 't' => some '\t'
  | 'f' => some '\x0c'
  | 'b' => some '\x08'
  | _ => none

/-- Reads the units of a string up to its closing quote. -/
def readUnits? : List Char → Option (List JsonUnit × List Char)
  | [] => none
  | '"' :: rest => some ([], rest)
  | '\\' :: 'u' :: a :: b :: c :: d :: rest => do
      let n ← ofHex? [a, b, c, d]
      let (units, after) ← readUnits? rest
      return (.code n :: units, after)
  | '\\' :: e :: rest => do
      let c ← shortEscape? e
      let (units, after) ← readUnits? rest
      return (.char c :: units, after)
  | c :: rest =>
      if c = '\\' ∨ c.toNat < 0x20 then none
      else (readUnits? rest).map fun (units, after) => (.char c :: units, after)

/-- Combines UTF-16 units into characters; a surrogate without its partner is refused. -/
def combineUnits? : List JsonUnit → Option (List Char)
  | [] => some []
  | .char c :: rest => (combineUnits? rest).map (c :: ·)
  | .code n :: .code m :: rest =>
      if 0xd800 ≤ n ∧ n < 0xdc00 ∧ 0xdc00 ≤ m ∧ m < 0xe000 then
        (combineUnits? rest).map
          (Char.ofNat (0x10000 + (n - 0xd800) * 0x400 + (m - 0xdc00)) :: ·)
      else if 0xd800 ≤ n ∧ n < 0xe000 then none
      else (combineUnits? (.code m :: rest)).map (Char.ofNat n :: ·)
  | .code n :: rest =>
      if 0xd800 ≤ n ∧ n < 0xe000 then none else (combineUnits? rest).map (Char.ofNat n :: ·)

/-- Skips the white space that JSON allows between tokens. -/
def skipJsonSpace : List Char → List Char
  | [] => []
  | c :: rest =>
      if c = ' ' ∨ c = '\t' ∨ c = '\n' ∨ c = '\r' then skipJsonSpace rest else c :: rest

theorem length_skipJsonSpace : ∀ (cs : List Char), (skipJsonSpace cs).length ≤ cs.length
  | [] => Nat.le_refl _
  | c :: rest => by
      simp only [skipJsonSpace]
      split
      · exact Nat.le_succ_of_le (length_skipJsonSpace rest)
      · exact Nat.le_refl _

/-- Reads a JSON string. -/
def readString? : List Char → Option (String × List Char)
  | '"' :: rest => do
      let (units, after) ← readUnits? rest
      let cs ← combineUnits? units
      return (.ofList cs, after)
  | _ => none

/-- Reads the elements that follow an element, up to the bracket that closes the array. -/
def readMore? : (fuel : Nat) → List Char → Option (List String × List Char)
  | 0, _ => none
  | fuel + 1, cs =>
      match skipJsonSpace cs with
      | ']' :: rest => some ([], rest)
      | ',' :: rest => do
          let (s, after) ← readString? (skipJsonSpace rest)
          let (ss, final) ← readMore? fuel after
          return (s :: ss, final)
      | _ => none

/-- Reads a JSON array of strings that is the whole of a text. -/
def readList? (cs : List Char) : Option (List String) :=
  match skipJsonSpace cs with
  | '[' :: rest =>
      match skipJsonSpace rest with
      | ']' :: after => if skipJsonSpace after = [] then some [] else none
      | _ => do
          let (s, after) ← readString? (skipJsonSpace rest)
          let (ss, final) ← readMore? cs.length after
          if skipJsonSpace final = [] then return s :: ss else none
  | _ => none

end LineShell.Text
