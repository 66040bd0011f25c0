/-!
# Text/Hex — fixed-width hexadecimal

`toHex` writes a number in exactly `width` lower-case digits and `ofHex?` reads digits of either
case. A number that fits the width is read back (`ofHex?_toHex`).
-/

namespace LineShell.Text

/-- The lower-case digit of a number below sixteen. -/
def hexDigit (n : Nat) : Char :=
  if n < 10 then Char.ofNat (0x30 + n) else Char.ofNat (0x61 + (n - 10))

/-- The value of a hexadecimal digit of either case. -/
def hexValue? (c : Char) : Option Nat :=
  let n := c.toNat
  if 0x30 ≤ n ∧ n ≤ 0x39 then some (n - 0x30)
  else if 0x61 ≤ n ∧ n ≤ 0x66 then some (n - 0x61 + 10)
  else if 0x41 ≤ n ∧ n ≤ 0x46 then some (n - 0x41 + 10)
  else none

theorem hexValue?_hexDigit {n : Nat} (h : n < 16) : hexValue? (hexDigit n) = some n := by
  have : ∀ k : Fin 16, hexValue? (hexDigit k) = some k.val := by decide
  exact this ⟨n, h⟩

/-- The last `width` hexadecimal digits of a number, most significant first. -/
def toHex : (width : Nat) → Nat → List Char
  | 0, _ => []
  | w + 1, n => toHex w (n / 16) ++ [hexDigit (n % 16)]

theorem length_toHex : ∀ (w n : Nat), (toHex w n).length = w
  | 0, _ => rfl
  | w + 1, n => by simp [toHex, length_toHex w]

/-- Reads digits onto an already read number. -/
def ofHexFrom? : Nat → List Char → Option Nat
  | acc, [] => some acc
  | acc, c :: rest => (hexValue? c).bind fun d => ofHexFrom? (16 * acc + d) rest

/-- The number that a run of hexadecimal digits writes. -/
def ofHex? (cs : List Char) : Option Nat := ofHexFrom? 0 cs

theorem ofHexFrom?_append : ∀ (acc : Nat) (xs ys : List Char),
    ofHexFrom? acc (xs ++ ys) = (ofHexFrom? acc xs).bind fun a => ofHexFrom? a ys
  | _, [], _ => rfl
  | acc, c :: xs, ys => by
      cases h : hexValue? c with
      | none => simp [ofHexFrom?, h]
      | some d => simpa [ofHexFrom?, h] using ofHexFrom?_append (16 * acc + d) xs ys

/-- How many numbers fit a width. -/
def hexBound : (width : Nat) → Nat
  | 0 => 1
  | w + 1 => 16 * hexBound w

theorem ofHex?_toHex : ∀ (w n : Nat), n < hexBound w → ofHex? (toHex w n) = some n
  | 0, n, h => by
      obtain rfl : n = 0 := Nat.lt_one_iff.mp h
      rfl
  | w + 1, n, h => by
      have hw : n / 16 < hexBound w := by
        rw [hexBound] at h
        exact Nat.div_lt_of_lt_mul h
      have ih := ofHex?_toHex w (n / 16) hw
      have hd := hexValue?_hexDigit (Nat.mod_lt n (by decide : 0 < 16))
      simp only [ofHex?, toHex] at ih ⊢
      rw [ofHexFrom?_append, ih]
      simp only [Option.bind_some, ofHexFrom?, hd]
      exact congrArg some (Nat.div_add_mod n 16)

end LineShell.Text
