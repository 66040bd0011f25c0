import LineShell.Text.Hex

/-!
# Text/Utf8 — reading UTF-8

`decode` reads bytes into characters or tells which bytes are at fault. A lead byte fixes how many
continuation bytes follow and the range of the first of them, which rules out overlong forms,
surrogates and numbers past `U+10FFFF`. The bytes at fault are the lead byte and the continuation
bytes that fit before the first that does not.
-/

namespace LineShell.Text.Utf8

/-- Why bytes are no character. -/
inductive Reason where
  | invalidStart
  | invalidContinuation
  | unexpectedEnd
  deriving DecidableEq, Repr

namespace Reason

/-- The words for a reason. -/
def describe : Reason → String
  | invalidStart => "invalid start byte"
  | invalidContinuation => "invalid continuation byte"
  | unexpectedEnd => "unexpected end of data"

end Reason

/-- The bytes that are no character. -/
structure Fault where
  /-- The first byte at fault. -/
  lead : UInt8
  /-- Its position, counted from zero. -/
  position : Nat
  /-- The number of bytes at fault. -/
  count : Nat
  reason : Reason
  deriving DecidableEq, Repr

namespace Fault

/-- The sentence that tells about the bytes at fault. -/
def message (f : Fault) : String :=
  let hex := String.ofList (toHex 2 f.lead.toNat)
  let what :=
    if f.count = 1 then s!"byte 0x{hex} in position {f.position}"
    else s!"bytes in position {f.position}-{f.position + f.count - 1}"
  s!"'utf-8' codec can't decode {what}: {f.reason.describe}"

end Fault

/-- A character whose continuation bytes are still being read. -/
structure Pending where
  lead : UInt8
  position : Nat
  /-- The number of bytes read so far. -/
  seen : Nat
  /-- The bits read so far. -/
  value : Nat
  /-- How many continuation bytes follow the next one. -/
  more : Nat
  /-- The least and the greatest byte that may come next. -/
  low : Nat
  high : Nat

/-- What a byte starts: a character of its own, a longer character, or nothing. -/
inductive Start where
  | character (c : Char)
  | longer (p : Pending)
  | nothing

/-- Reads the byte at a position as the first of a character. -/
def start (position : Nat) (b : UInt8) : Start :=
  let n := b.toNat
  let longer (value more low high : Nat) : Start := .longer ⟨b, position, 1, value, more, low, high⟩
  if n < 0x80 then .character (Char.ofNat n)
  else if n < 0xc2 then .nothing
  else if n < 0xe0 then longer (n - 0xc0) 0 0x80 0xbf
  else if n = 0xe0 then longer 0 1 0xa0 0xbf
  else if n = 0xed then longer 0xd 1 0x80 0x9f
  else if n < 0xf0 then longer (n - 0xe0) 1 0x80 0xbf
  else if n = 0xf0 then longer 0 2 0x90 0xbf
  else if n < 0xf4 then longer (n - 0xf0) 2 0x80 0xbf
  else if n = 0xf4 then longer 4 2 0x80 0x8f
  else .nothing

/-- Reads bytes from a position on, after the bytes of a pending character if there is one. -/
def decodeFrom : (position : Nat) → Option Pending → List UInt8 → Except Fault (List Char)
  | _, none, [] => .ok []
  | _, some p, [] => .error ⟨p.lead, p.position, p.seen, .unexpectedEnd⟩
  | position, none, b :: rest =>
      match start position b with
      | .character c => (decodeFrom (position + 1) none rest).map (c :: ·)
      | .longer p => decodeFrom (position + 1) (some p) rest
      | .nothing => .error ⟨b, position, 1, .invalidStart⟩
  | position, some p, b :: rest =>
      if p.low ≤ b.toNat ∧ b.toNat ≤ p.high then
        let value := 64 * p.value + (b.toNat - 0x80)
        match p.more with
        | 0 => (decodeFrom (position + 1) none rest).map (Char.ofNat value :: ·)
        | more + 1 =>
            decodeFrom (position + 1) (some ⟨p.lead, p.position, p.seen + 1, value, more, 0x80, 0xbf⟩)
              rest
      else .error ⟨p.lead, p.position, p.seen, .invalidContinuation⟩

/-- The characters that bytes encode. -/
def decode (bytes : List UInt8) : Except Fault (List Char) := decodeFrom 0 none bytes

/-- The bytes that encode characters. -/
def encode (cs : List Char) : List UInt8 := cs.flatMap String.utf8EncodeChar

end LineShell.Text.Utf8
