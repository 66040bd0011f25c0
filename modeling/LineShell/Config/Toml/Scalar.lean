import LineShell.Config.Toml.Value
import LineShell.Text.Hex

/-!
# Config/Toml/Scalar — numbers, booleans and moments in time

These values are written as one run of letters, digits and signs. `scalar?` tells which value a run
writes, if any: an underscore stands only between digits, a decimal number has no leading zero and
an integer among them at most `decimalLimit` digits, and a moment is a date, a time of day, or both
with an optional offset.
-/

namespace LineShell.Toml

/-- The character is one of `0` to `9`. -/
def isDigit (c : Char) : Bool := '0' ≤ c && c ≤ '9'

/-- The digits of a run in which single underscores may stand between digits. -/
def digitRun? (digit : Char → Bool) : List Char → Option (List Char)
  | [] => none
  | [c] => if digit c then some [c] else none
  | c :: '_' :: rest => if digit c then (digitRun? digit rest).map (c :: ·) else none
  | c :: rest => if digit c then (digitRun? digit rest).map (c :: ·) else none

/-- The number that digits write in a base up to sixteen. -/
def inBase (base : Nat) (digits : List Char) : Nat :=
  digits.foldl (fun n c => base * n + (Text.hexValue? c).getD 0) 0

/-- The digits of a decimal number without sign, which has no leading zero. -/
def decimal? (cs : List Char) : Option (List Char) :=
  match digitRun? isDigit cs with
  | some ('0' :: _ :: _) => none
  | digits => digits

/-- Splits a sign off: true for minus. -/
def splitSign : List Char → Bool × List Char
  | '-' :: rest => (true, rest)
  | '+' :: rest => (false, rest)
  | cs => (false, cs)

/-- The greatest number of digits of a decimal integer. -/
def decimalLimit : Nat := 4300

/-- The integer that a run writes; only decimal integers are limited in length. -/
def integer? (cs : List Char) : Option Int :=
  match cs with
  | '0' :: 'x' :: rest => (digitRun? (Text.hexValue? · |>.isSome) rest).map (inBase 16 ·)
  | '0' :: 'o' :: rest => (digitRun? (fun c => '0' ≤ c && c ≤ '7') rest).map (inBase 8 ·)
  | '0' :: 'b' :: rest => (digitRun? (fun c => c == '0' || c == '1') rest).map (inBase 2 ·)
  | _ =>
      let (negative, digits) := splitSign cs
      match decimal? digits with
      | none => none
      | some ds =>
          if decimalLimit < ds.length then none
          else some (if negative then -(inBase 10 ds : Int) else inBase 10 ds)

/-- The text is an exponent: a letter, an optional sign and digits. -/
def isExponent : List Char → Bool
  | c :: rest => (c == 'e' || c == 'E') && (digitRun? isDigit (splitSign rest).2).isSome
  | [] => false

/-- The run writes a number with a fraction, an exponent, or no finite value. -/
def isFloat (cs : List Char) : Bool :=
  let magnitude := (splitSign cs).2
  let (whole, rest) := magnitude.span fun c => isDigit c || c == '_'
  let isTail := match rest with
    | '.' :: more =>
        let (fraction, after) := more.span fun c => isDigit c || c == '_'
        (digitRun? isDigit fraction).isSome && (after.isEmpty || isExponent after)
    | _ => isExponent rest
  magnitude == "inf".toList || magnitude == "nan".toList || ((decimal? whole).isSome && isTail)

/-- The number that two digits write. -/
def twoDigits? (a b : Char) : Option Nat :=
  if isDigit a && isDigit b then some (inBase 10 [a, b]) else none

/-- The number of days of a month. -/
def daysIn (year month : Nat) : Nat :=
  if month = 2 then
    if year % 4 = 0 ∧ (year % 100 ≠ 0 ∨ year % 400 = 0) then 29 else 28
  else if month = 4 ∨ month = 6 ∨ month = 9 ∨ month = 11 then 30
  else 31

/-- The numbers are a date; years count from one. -/
def isDate (year month day : Nat) : Bool :=
  1 ≤ year && 1 ≤ month && month ≤ 12 && 1 ≤ day && day ≤ daysIn year month

/-- What follows the date that a text starts with. -/
def afterDate? : List Char → Option (List Char)
  | a :: b :: c :: d :: '-' :: e :: f :: '-' :: g :: h :: rest => do
      let century ← twoDigits? a b
      let year ← twoDigits? c d
      let month ← twoDigits? e f
      let day ← twoDigits? g h
      if isDate (100 * century + year) month day then some rest else none
  | _ => none

/-- What follows the hours and minutes that a text starts with. -/
def afterMinutes? : List Char → Option (List Char)
  | a :: b :: ':' :: c :: d :: rest => do
      let hour ← twoDigits? a b
      let minute ← twoDigits? c d
      if hour ≤ 23 ∧ minute ≤ 59 then some rest else none
  | _ => none

/-- What follows the time of day that a text starts with. -/
def afterTime? (cs : List Char) : Option (List Char) :=
  match afterMinutes? cs with
  | some (':' :: a :: b :: rest) => do
      let second ← twoDigits? a b
      if 60 ≤ second then none
      else match rest with
        | '.' :: more =>
            if (more.takeWhile isDigit).isEmpty then none else some (more.dropWhile isDigit)
        | _ => some rest
  | _ => none

/-- The text is nothing or an offset from universal time. -/
def isOffset : List Char → Bool
  | [] => true
  | ['Z'] => true
  | ['z'] => true
  | '+' :: rest => afterMinutes? rest == some []
  | '-' :: rest => afterMinutes? rest == some []
  | _ => false

/-- The run writes a date, a time of day, or both. -/
def isMoment (cs : List Char) : Bool :=
  match afterDate? cs with
  | some [] => true
  | some (c :: rest) =>
      (c == 'T' || c == 't' || c == ' ') && (afterTime? rest).any isOffset
  | none => afterTime? cs == some []

/-- The value that a run writes. -/
def scalar? (run : List Char) : Option Value :=
  if run = "true".toList then some (.boolean true)
  else if run = "false".toList then some (.boolean false)
  else match integer? run with
    | some n => some (.integer n)
    | none =>
        if isFloat run then some (.float (.ofList run))
        else if isMoment run then some (.moment (.ofList run))
        else none

/-- The character may stand in a run. -/
def isRunChar (c : Char) : Bool :=
  c.isAlphanum || c == '+' || c == '-' || c == '_' || c == '.' || c == ':'

/-- Cuts a text after the run that it starts with; a blank may part a date from a time. -/
def cutRun (cs : List Char) : List Char × List Char :=
  let (run, rest) := cs.span isRunChar
  match afterDate? run, rest with
  | some [], ' ' :: c :: more =>
      if isDigit c then
        let (time, after) := (c :: more).span isRunChar
        (run ++ ' ' :: time, after)
      else (run, rest)
  | _, _ => (run, rest)

end LineShell.Toml
