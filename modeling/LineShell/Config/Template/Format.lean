import LineShell.Config.Template.Fault
import LineShell.Text.Decimal

/-!
# Config/Template/Format — fitting a text into a field

A format is `[[fill]align][0][width][.precision][s]`. The precision cuts the text, the width fills
it up with the fill character, and centred text has the odd character on the right. The options
that only numbers know are read, so that they can be refused by name.
-/

namespace LineShell.Template

/-- Where a text stands in a field wider than it. -/
inductive Alignment where
  | left
  | right
  | centre
  /-- For numbers: between the sign and the digits. -/
  | inside
  deriving DecidableEq, Repr

/-- The alignment that a character asks for. -/
def Alignment.ofChar? : Char → Option Alignment
  | '<' => some .left
  | '>' => some .right
  | '^' => some .centre
  | '=' => some .inside
  | _ => none

/-- How a text is fitted into a field. -/
structure Format where
  fill : Char := ' '
  alignment : Alignment := .left
  width : Nat := 0
  precision : Option Nat := none
  deriving DecidableEq, Repr

namespace Format

/-- The text cut to the precision and filled to the width. -/
def fit (f : Format) (cs : List Char) : List Char :=
  let body := match f.precision with
    | some n => cs.take n
    | none => cs
  let missing := f.width - body.length
  let before := match f.alignment with
    | .right => missing
    | .centre => missing / 2
    | _ => 0
  List.replicate before f.fill ++ body ++ List.replicate (missing - before) f.fill

/-- A format without options leaves a text alone. -/
theorem fit_default (cs : List Char) : ({} : Format).fit cs = cs := by simp [fit]

end Format

/-- The greatest position, width or precision: one less than the 63rd power of two. -/
def greatestNumber : Nat := 0x7fffffffffffffff

/-- Reads digits onto a number, and how many there are, up to the first other character. -/
def digits (read : Nat) (n : Nat) : List Char → Except Fault (Nat × Nat × List Char)
  | [] => .ok (n, read, [])
  | c :: rest =>
      match Text.digitValue? c with
      | none => .ok (n, read, c :: rest)
      | some d =>
          if greatestNumber < 10 * n + d then .error .tooManyDigits
          else digits (read + 1) (10 * n + d) rest

/-- Takes a character off the front of a text, if it stands there. -/
def takeChar (c : Char) : List Char → Bool × List Char
  | d :: rest => if d = c then (true, rest) else (false, d :: rest)
  | [] => (false, [])

/-- Takes fill and alignment off the front of a format. -/
def takeAlignment (cs : List Char) : (Option Char × Option Alignment) × List Char :=
  match cs with
  | fill :: align :: rest =>
      match Alignment.ofChar? align with
      | some a => ((some fill, some a), rest)
      | none =>
          match Alignment.ofChar? fill with
          | some a => ((none, some a), align :: rest)
          | none => ((none, none), cs)
  | [align] =>
      match Alignment.ofChar? align with
      | some a => ((none, some a), [])
      | none => ((none, none), cs)
  | [] => ((none, none), [])

/-- Takes a sign option off the front of a format. -/
def takeSign : List Char → Option NumberOption × List Char
  | ' ' :: rest => (some .space, rest)
  | '+' :: rest => (some .sign, rest)
  | '-' :: rest => (some .sign, rest)
  | cs => (none, cs)

/-- Takes the thousands separator off the front of a format. -/
def takeSeparator (cs : List Char) : Except Fault (Option Char × List Char) :=
  let (comma, rest) := takeChar ',' cs
  let (underscore, rest) := takeChar '_' rest
  if comma && underscore then .error .bothSeparators
  else if underscore && rest.head? = some ',' then .error .bothSeparators
  else .ok (if comma then some ',' else if underscore then some '_' else none, rest)

/-- Takes the precision off the front of a format. -/
def takePrecision (cs : List Char) : Except Fault (Option Nat × List Char) :=
  match cs with
  | '.' :: rest => do
      let (n, read, rest) ← digits 0 0 rest
      if read = 0 then .error .noPrecision else return (some n, rest)
  | _ => .ok (none, cs)

/-- The kinds of number format that allow a thousands separator; the character `U+0000` stands for
the kind that a number has by default, which allows it too. -/
def allowsSeparator (separator kind : Char) : Bool :=
  "defgEG%F\x00".toList.contains kind || (separator == '_' && "boxX".toList.contains kind)

/-- The first of some options that are asked for. -/
def firstOption (options : List (Bool × NumberOption)) : Option NumberOption :=
  (options.find? (·.1)).map (·.2)

/-- Reads a format for text. -/
def Format.parse (cs : List Char) : Except Fault Format := do
  let ((fill, align), rest) := takeAlignment cs
  let (sign, rest) := takeSign rest
  let (negativeZero, rest) := takeChar 'z' rest
  let (alternate, rest) := takeChar '#' rest
  let (zeros, rest) := if fill.isNone then takeChar '0' rest else (false, rest)
  let (width, _, rest) ← digits 0 0 rest
  let (separator, rest) ← takeSeparator rest
  let (precision, rest) ← takePrecision rest
  let kind ← match rest with
    | [] => pure 's'
    | [kind] => pure kind
    | _ => throw (.badFormat (.ofList cs))
  if let some separator := separator then
    unless allowsSeparator separator kind do throw (.noSeparator separator kind)
  unless kind = 's' do throw (.unknownKind kind)
  if let some option := sign then throw (.numberOnly option)
  if let some option := firstOption [(negativeZero, .negativeZero), (alternate, .alternate),
      (align == some .inside, .equalsAlignment)] then throw (.numberOnly option)
  return {
    fill := fill.getD (if zeros then '0' else ' ')
    alignment := align.getD .left
    width, precision }

/-- The greatest width of a field that can be built. -/
def widthLimit : Nat := 0xffffffff

/-- Fits a text into a field; an empty format leaves it alone. -/
def applyFormat (format cs : List Char) : Except Fault (List Char) :=
  if format.isEmpty then .ok cs
  else match Format.parse format with
    | .ok f => if widthLimit < f.width then .error .tooWide else .ok (f.fit cs)
    | .error fault => .error fault

end LineShell.Template
