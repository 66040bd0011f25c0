import LineShell.Text.Utf8

/-!
# Proofs/Text/Utf8 — what is written in UTF-8 is read back, and nothing else is read

    characters ──encode──▸ bytes ──decode──▸ the same characters

A lead byte tells how many bytes follow it and narrows the range of the first of them; the encoding
of a character stays within these bounds because it is the shortest one and the character is no
surrogate.  So a text is read back character by character, whatever stands behind it
(`decodeFrom_encodeChar`, `decode_encode`).  The bounds admit nothing but that: the bytes that are
read for a character are the ones that encode it (`exists_of_decodeFrom`), so every other sequence
of bytes is refused (`decode_eq_ok_iff`).
-/

namespace LineShell.Text.Utf8

/-! ## Continuation bytes -/

section Pending

variable {position : Nat} {p : Pending} {b : UInt8} (hrange : p.low ≤ b.toNat ∧ b.toNat ≤ p.high)

include hrange

/-- A continuation byte that is not the last adds its six bits. -/
theorem decodeFrom_continue {more : Nat} (hmore : p.more = more + 1) (rest : List UInt8) :
    decodeFrom position (some p) (b :: rest) =
      decodeFrom (position + 1) (some ⟨p.lead, p.position, p.seen + 1,
        64 * p.value + (b.toNat - 0x80), more, 0x80, 0xbf⟩) rest := by
  simp only [decodeFrom, if_pos hrange, hmore]

/-- The last continuation byte completes the character. -/
theorem decodeFrom_complete (hmore : p.more = 0) (rest : List UInt8) :
    decodeFrom position (some p) (b :: rest) =
      (decodeFrom (position + 1) none rest).map
        (Char.ofNat (64 * p.value + (b.toNat - 0x80)) :: ·) := by
  simp only [decodeFrom, if_pos hrange, hmore]

end Pending

/-! ## Lead bytes -/

section Lead

variable {position : Nat} {b : UInt8}

theorem start_one (h : b.toNat < 0x80) : start position b = .character (Char.ofNat b.toNat) := by
  simp only [start, if_pos h]

theorem start_two (hlow : 0xc2 ≤ b.toNat) (hhigh : b.toNat < 0xe0) :
    start position b = .longer ⟨b, position, 1, b.toNat - 0xc0, 0, 0x80, 0xbf⟩ := by
  have h₁ : ¬ b.toNat < 0x80 := by omega
  have h₂ : ¬ b.toNat < 0xc2 := by omega
  simp only [start, if_neg h₁, if_neg h₂, if_pos hhigh]

/-- Three bytes: the second is neither so low that two would do, nor does it make a surrogate. -/
theorem start_three (hlow : 0xe0 ≤ b.toNat) (hhigh : b.toNat < 0xf0) :
    ∃ low high, start position b = .longer ⟨b, position, 1, b.toNat - 0xe0, 1, low, high⟩ ∧
      ∀ second, low ≤ second ∧ second ≤ high ↔ 0x80 ≤ second ∧ second ≤ 0xbf ∧
        (b.toNat = 0xe0 → 0xa0 ≤ second) ∧ (b.toNat = 0xed → second ≤ 0x9f) := by
  have h₁ : ¬ b.toNat < 0x80 := by omega
  have h₂ : ¬ b.toNat < 0xc2 := by omega
  have h₃ : ¬ b.toNat < 0xe0 := by omega
  by_cases he : b.toNat = 0xe0
  · exact ⟨0xa0, 0xbf, by simp [start, he], fun second => by omega⟩
  · by_cases hd : b.toNat = 0xed
    · exact ⟨0x80, 0x9f, by simp [start, hd], fun second => by omega⟩
    · refine ⟨0x80, 0xbf, ?_, fun second => by omega⟩
      simp only [start, if_neg h₁, if_neg h₂, if_neg h₃, if_neg he, if_neg hd, if_pos hhigh]

/-- Four bytes: the second is neither so low that three would do, nor does it pass the last
character. -/
theorem start_four (hlow : 0xf0 ≤ b.toNat) (hhigh : b.toNat ≤ 0xf4) :
    ∃ low high, start position b = .longer ⟨b, position, 1, b.toNat - 0xf0, 2, low, high⟩ ∧
      ∀ second, low ≤ second ∧ second ≤ high ↔ 0x80 ≤ second ∧ second ≤ 0xbf ∧
        (b.toNat = 0xf0 → 0x90 ≤ second) ∧ (b.toNat = 0xf4 → second ≤ 0x8f) := by
  by_cases he : b.toNat = 0xf0
  · exact ⟨0x90, 0xbf, by simp [start, he], fun second => by omega⟩
  · by_cases hd : b.toNat = 0xf4
    · exact ⟨0x80, 0x8f, by simp [start, hd], fun second => by omega⟩
    · refine ⟨0x80, 0xbf, ?_, fun second => by omega⟩
      have h₁ : ¬ b.toNat < 0x80 := by omega
      have h₂ : ¬ b.toNat < 0xc2 := by omega
      have h₃ : ¬ b.toNat < 0xe0 := by omega
      have h₄ : ¬ b.toNat = 0xe0 := by omega
      have h₅ : ¬ b.toNat = 0xed := by omega
      have h₆ : ¬ b.toNat < 0xf0 := by omega
      have h₇ : b.toNat < 0xf4 := by omega
      simp only [start, if_neg h₁, if_neg h₂, if_neg h₃, if_neg h₄, if_neg h₅, if_neg h₆,
        if_neg he, if_pos h₇]

/-- No other byte starts a character. -/
theorem start_nothing (h : 0x80 ≤ b.toNat ∧ b.toNat < 0xc2 ∨ 0xf4 < b.toNat) :
    start position b = .nothing := by
  obtain ⟨hlow, hhigh⟩ | h := h
  · have h₁ : ¬ b.toNat < 0x80 := by omega
    simp only [start, if_neg h₁, if_pos hhigh]
  · have h₁ : ¬ b.toNat < 0x80 := by omega
    have h₂ : ¬ b.toNat < 0xc2 := by omega
    have h₃ : ¬ b.toNat < 0xe0 := by omega
    have h₄ : ¬ b.toNat = 0xe0 := by omega
    have h₅ : ¬ b.toNat = 0xed := by omega
    have h₆ : ¬ b.toNat < 0xf0 := by omega
    have h₇ : ¬ b.toNat = 0xf0 := by omega
    have h₈ : ¬ b.toNat < 0xf4 := by omega
    have h₉ : ¬ b.toNat = 0xf4 := by omega
    simp only [start, if_neg h₁, if_neg h₂, if_neg h₃, if_neg h₄, if_neg h₅, if_neg h₆,
      if_neg h₇, if_neg h₈, if_neg h₉]

end Lead

/-! ## Characters -/

theorem toNat_ofNat {n : Nat} (h : n < 256) : (UInt8.ofNat n).toNat = n := by
  rw [UInt8.toNat_ofNat']
  exact Nat.mod_eq_of_lt h

theorem continuation_range (n : Nat) : 0x80 ≤ (UInt8.ofNat (n % 64 + 128)).toNat ∧
    (UInt8.ofNat (n % 64 + 128)).toNat ≤ 0xbf := by
  rw [toNat_ofNat (by omega)]
  omega

/-- The code points are those below the surrogates and those between them and the last one. -/
theorem toNat_bounds (c : Char) : c.toNat < 0xd800 ∨ 0xdfff < c.toNat ∧ c.toNat < 0x110000 :=
  c.valid

theorem ofNat_eq {c : Char} {n : Nat} (h : n = c.toNat) : Char.ofNat n = c :=
  h ▸ Char.ofNat_toNat c

theorem decodeFrom_character {position : Nat} {b : UInt8} {c : Char}
    (h : start position b = .character c) (rest : List UInt8) :
    decodeFrom position none (b :: rest) =
      (decodeFrom (position + 1) none rest).map (c :: ·) := by
  simp only [decodeFrom, h]

theorem decodeFrom_longer {position : Nat} {b : UInt8} {p : Pending}
    (h : start position b = .longer p) (rest : List UInt8) :
    decodeFrom position none (b :: rest) = decodeFrom (position + 1) (some p) rest := by
  simp only [decodeFrom, h]

/-! ### One to four bytes

The bytes that encode a character, by how many there are, and how they are read. -/

section Widths

variable {c : Char} (position : Nat) (rest : List UInt8)

theorem encodeChar_one (h : c.toNat ≤ 127) : String.utf8EncodeChar c = [.ofNat c.toNat] := if_pos h

theorem encodeChar_two (hlow : ¬ c.toNat ≤ 127) (hhigh : c.toNat ≤ 2047) :
    String.utf8EncodeChar c = [.ofNat (c.toNat / 64 % 32 + 192), .ofNat (c.toNat % 64 + 128)] :=
  (if_neg hlow).trans (if_pos hhigh)

theorem encodeChar_three (hlow : ¬ c.toNat ≤ 2047) (hhigh : c.toNat ≤ 65535) :
    String.utf8EncodeChar c = [.ofNat (c.toNat / 4096 % 16 + 224),
      .ofNat (c.toNat / 64 % 64 + 128), .ofNat (c.toNat % 64 + 128)] :=
  (if_neg fun h : c.toNat ≤ 127 => hlow (by omega)).trans ((if_neg hlow).trans (if_pos hhigh))

theorem encodeChar_four (hlow : ¬ c.toNat ≤ 65535) :
    String.utf8EncodeChar c = [.ofNat (c.toNat / 262144 % 8 + 240),
      .ofNat (c.toNat / 4096 % 64 + 128), .ofNat (c.toNat / 64 % 64 + 128),
      .ofNat (c.toNat % 64 + 128)] :=
  (if_neg fun h : c.toNat ≤ 127 => hlow (by omega)).trans
    ((if_neg fun h : c.toNat ≤ 2047 => hlow (by omega)).trans (if_neg hlow))

theorem decodeFrom_one (h : c.toNat ≤ 127) :
    decodeFrom position none (String.utf8EncodeChar c ++ rest) =
      (decodeFrom (position + 1) none rest).map (c :: ·) := by
  have hlead := toNat_ofNat (n := c.toNat) (by omega)
  have hstart : start position (.ofNat c.toNat) = .character c := by
    rw [start_one (by omega), ofNat_eq hlead]
  rw [encodeChar_one h]
  exact decodeFrom_character hstart rest

theorem decodeFrom_two (hlow : ¬ c.toNat ≤ 127) (hhigh : c.toNat ≤ 2047) :
    decodeFrom position none (String.utf8EncodeChar c ++ rest) =
      (decodeFrom (position + 2) none rest).map (c :: ·) := by
  have hlead := toNat_ofNat (n := c.toNat / 64 % 32 + 192) (by omega)
  have hlast := toNat_ofNat (n := c.toNat % 64 + 128) (by omega)
  rw [encodeChar_two hlow hhigh]
  simp only [List.cons_append, List.nil_append]
  rw [decodeFrom_longer (start_two (by omega) (by omega)),
    decodeFrom_complete (continuation_range _) rfl, ofNat_eq]
  simp only [hlead, hlast]
  omega

theorem decodeFrom_three (hlow : ¬ c.toNat ≤ 2047) (hhigh : c.toNat ≤ 65535) :
    decodeFrom position none (String.utf8EncodeChar c ++ rest) =
      (decodeFrom (position + 3) none rest).map (c :: ·) := by
  have hbounds := toNat_bounds c
  have hlead := toNat_ofNat (n := c.toNat / 4096 % 16 + 224) (by omega)
  have hnext := toNat_ofNat (n := c.toNat / 64 % 64 + 128) (by omega)
  have hlast := toNat_ofNat (n := c.toNat % 64 + 128) (by omega)
  obtain ⟨low, high, hstart, hrange⟩ :=
    @start_three position (.ofNat (c.toNat / 4096 % 16 + 224)) (by omega) (by omega)
  rw [encodeChar_three hlow hhigh]
  simp only [List.cons_append, List.nil_append]
  rw [decodeFrom_longer hstart,
    decodeFrom_continue ((hrange _).mpr (by omega)) rfl,
    decodeFrom_complete (continuation_range _) rfl, ofNat_eq]
  simp only [hlead, hnext, hlast]
  omega

theorem decodeFrom_four (hlow : ¬ c.toNat ≤ 65535) :
    decodeFrom position none (String.utf8EncodeChar c ++ rest) =
      (decodeFrom (position + 4) none rest).map (c :: ·) := by
  have hbounds := toNat_bounds c
  have hlead := toNat_ofNat (n := c.toNat / 262144 % 8 + 240) (by omega)
  have hnext := toNat_ofNat (n := c.toNat / 4096 % 64 + 128) (by omega)
  have hthird := toNat_ofNat (n := c.toNat / 64 % 64 + 128) (by omega)
  have hlast := toNat_ofNat (n := c.toNat % 64 + 128) (by omega)
  obtain ⟨low, high, hstart, hrange⟩ :=
    @start_four position (.ofNat (c.toNat / 262144 % 8 + 240)) (by omega) (by omega)
  rw [encodeChar_four hlow]
  simp only [List.cons_append, List.nil_append]
  rw [decodeFrom_longer hstart,
    decodeFrom_continue ((hrange _).mpr (by omega)) rfl,
    decodeFrom_continue (continuation_range _) rfl,
    decodeFrom_complete (continuation_range _) rfl, ofNat_eq]
  simp only [hlead, hnext, hthird, hlast]
  omega

end Widths

/-- **A character is read back**, whatever stands behind it. -/
theorem decodeFrom_encodeChar (c : Char) (position : Nat) (rest : List UInt8) :
    ∃ position', decodeFrom position none (String.utf8EncodeChar c ++ rest) =
      (decodeFrom position' none rest).map (c :: ·) := by
  by_cases h₁ : c.toNat ≤ 127
  · exact ⟨_, decodeFrom_one position rest h₁⟩
  · by_cases h₂ : c.toNat ≤ 2047
    · exact ⟨_, decodeFrom_two position rest h₁ h₂⟩
    · by_cases h₃ : c.toNat ≤ 65535
      · exact ⟨_, decodeFrom_three position rest h₂ h₃⟩
      · exact ⟨_, decodeFrom_four position rest h₃⟩

theorem decodeFrom_encode : ∀ (cs : List Char) (position : Nat),
    decodeFrom position none (encode cs) = .ok cs
  | [], _ => rfl
  | c :: rest, position => by
    obtain ⟨position', hc⟩ := decodeFrom_encodeChar c position (encode rest)
    have hcons : encode (c :: rest) = String.utf8EncodeChar c ++ encode rest := rfl
    rw [hcons, hc, decodeFrom_encode rest position']
    rfl

/-- **What is written is read back.** -/
theorem decode_encode (cs : List Char) : decode (encode cs) = .ok cs := decodeFrom_encode cs 0

/-! ## What is read was written

The bytes that are read for one character have the values that its number gives them, since the
number is put together from them and the bounds leave it the shortest encoding. -/

theorem exists_of_map_eq_ok {ε α β : Type} {f : α → β} {b : β} :
    ∀ {x : Except ε α}, x.map f = .ok b → ∃ a, x = .ok a ∧ f a = b
  | .ok a, h => ⟨a, rfl, Except.ok.inj h⟩

theorem ofNat_eq_byte {b : UInt8} {n : Nat} (h : n = b.toNat) : UInt8.ofNat n = b :=
  h ▸ UInt8.ofNat_toNat

theorem toNat_charOfNat {n : Nat} (h : n < 0xd800 ∨ 0xdfff < n ∧ n < 0x110000) :
    (Char.ofNat n).toNat = n := by
  have hvalid : n.isValidChar := h
  rw [Char.ofNat, dif_pos hvalid]
  rfl

section Pending

variable {position first seen value low high : Nat} {lead : UInt8} {bytes : List UInt8}
  {cs : List Char}

/-- A character that is pending goes on with a byte in its range. -/
theorem exists_cons_of_decodeFrom {p : Pending}
    (h : decodeFrom position (some p) bytes = .ok cs) :
    ∃ b rest, bytes = b :: rest ∧ p.low ≤ b.toNat ∧ b.toNat ≤ p.high := by
  cases bytes with
  | nil => cases h
  | cons b rest =>
    by_cases hrange : p.low ≤ b.toNat ∧ b.toNat ≤ p.high
    · exact ⟨b, rest, rfl, hrange⟩
    · rw [decodeFrom, if_neg hrange] at h
      cases h

theorem exists_of_continue {more : Nat}
    (h : decodeFrom position (some ⟨lead, first, seen, value, more + 1, low, high⟩) bytes = .ok cs) :
    ∃ b rest, bytes = b :: rest ∧ (low ≤ b.toNat ∧ b.toNat ≤ high) ∧
      decodeFrom (position + 1) (some ⟨lead, first, seen + 1, 64 * value + (b.toNat - 0x80), more,
        0x80, 0xbf⟩) rest = .ok cs := by
  obtain ⟨b, rest, rfl, hrange⟩ := exists_cons_of_decodeFrom h
  rw [decodeFrom_continue hrange rfl] at h
  exact ⟨b, rest, rfl, hrange, h⟩

theorem exists_of_complete
    (h : decodeFrom position (some ⟨lead, first, seen, value, 0, low, high⟩) bytes = .ok cs) :
    ∃ b rest cs', bytes = b :: rest ∧ (low ≤ b.toNat ∧ b.toNat ≤ high) ∧
      cs = Char.ofNat (64 * value + (b.toNat - 0x80)) :: cs' ∧
      decodeFrom (position + 1) none rest = .ok cs' := by
  obtain ⟨b, rest, rfl, hrange⟩ := exists_cons_of_decodeFrom h
  rw [decodeFrom_complete hrange rfl] at h
  obtain ⟨cs', hrest, rfl⟩ := exists_of_map_eq_ok h
  exact ⟨b, rest, cs', rfl, hrange, rfl, hrest⟩

end Pending

/-- The bytes begin with the encoding of the first of the characters, and the others are read from
the bytes behind it. -/
def ReadsFirst (bytes : List UInt8) (cs : List Char) : Prop :=
  ∃ c cs' position rest, cs = c :: cs' ∧ bytes = String.utf8EncodeChar c ++ rest ∧
    decodeFrom position none rest = .ok cs'

section Widths

variable {position : Nat} {b : UInt8} {bytes : List UInt8} {cs : List Char}
  (h : decodeFrom position none (b :: bytes) = .ok cs)

include h

theorem readsFirst_one (hb : b.toNat < 0x80) : ReadsFirst (b :: bytes) cs := by
  rw [decodeFrom_character (start_one hb)] at h
  obtain ⟨cs', hrest, rfl⟩ := exists_of_map_eq_ok h
  have hc : (Char.ofNat b.toNat).toNat = b.toNat := toNat_charOfNat (by omega)
  refine ⟨_, cs', _, bytes, rfl, ?_, hrest⟩
  rw [encodeChar_one (by omega), ofNat_eq_byte hc]
  rfl

theorem readsFirst_two (hlow : 0xc2 ≤ b.toNat) (hhigh : b.toNat < 0xe0) :
    ReadsFirst (b :: bytes) cs := by
  rw [decodeFrom_longer (start_two hlow hhigh)] at h
  obtain ⟨b₂, rest, cs', rfl, h₂, rfl, hrest⟩ := exists_of_complete h
  have hc := toNat_charOfNat (n := 64 * (b.toNat - 0xc0) + (b₂.toNat - 0x80)) (by omega)
  refine ⟨_, cs', _, rest, rfl, ?_, hrest⟩
  rw [encodeChar_two (by omega) (by omega), ofNat_eq_byte (b := b) (by omega),
    ofNat_eq_byte (b := b₂) (by omega)]
  rfl

theorem readsFirst_three (hlow : 0xe0 ≤ b.toNat) (hhigh : b.toNat < 0xf0) :
    ReadsFirst (b :: bytes) cs := by
  obtain ⟨low, high, hstart, hrange⟩ := @start_three position b hlow hhigh
  rw [decodeFrom_longer hstart] at h
  obtain ⟨b₂, rest, rfl, h₂, h⟩ := exists_of_continue h
  obtain ⟨b₃, rest, cs', rfl, h₃, rfl, hrest⟩ := exists_of_complete h
  have h₂ := (hrange b₂.toNat).mp h₂
  have hc := toNat_charOfNat
    (n := 64 * (64 * (b.toNat - 0xe0) + (b₂.toNat - 0x80)) + (b₃.toNat - 0x80)) (by omega)
  refine ⟨_, cs', _, rest, rfl, ?_, hrest⟩
  rw [encodeChar_three (by omega) (by omega), ofNat_eq_byte (b := b) (by omega),
    ofNat_eq_byte (b := b₂) (by omega), ofNat_eq_byte (b := b₃) (by omega)]
  rfl

theorem readsFirst_four (hlow : 0xf0 ≤ b.toNat) (hhigh : b.toNat ≤ 0xf4) :
    ReadsFirst (b :: bytes) cs := by
  obtain ⟨low, high, hstart, hrange⟩ := @start_four position b hlow hhigh
  rw [decodeFrom_longer hstart] at h
  obtain ⟨b₂, rest, rfl, h₂, h⟩ := exists_of_continue h
  obtain ⟨b₃, rest, rfl, h₃, h⟩ := exists_of_continue h
  obtain ⟨b₄, rest, cs', rfl, h₄, rfl, hrest⟩ := exists_of_complete h
  have h₂ := (hrange b₂.toNat).mp h₂
  have hc := toNat_charOfNat
    (n := 64 * (64 * (64 * (b.toNat - 0xf0) + (b₂.toNat - 0x80)) + (b₃.toNat - 0x80)) +
      (b₄.toNat - 0x80)) (by omega)
  refine ⟨_, cs', _, rest, rfl, ?_, hrest⟩
  rw [encodeChar_four (by omega), ofNat_eq_byte (b := b) (by omega),
    ofNat_eq_byte (b := b₂) (by omega), ofNat_eq_byte (b := b₃) (by omega),
    ofNat_eq_byte (b := b₄) (by omega)]
  rfl

/-- **The bytes that are read for a character are the ones that encode it.** -/
theorem exists_of_decodeFrom : ReadsFirst (b :: bytes) cs := by
  by_cases h₁ : b.toNat < 0x80
  · exact readsFirst_one h h₁
  · by_cases h₂ : 0xc2 ≤ b.toNat ∧ b.toNat < 0xe0
    · exact readsFirst_two h h₂.1 h₂.2
    · by_cases h₃ : 0xe0 ≤ b.toNat ∧ b.toNat < 0xf0
      · exact readsFirst_three h h₃.1 h₃.2
      · by_cases h₄ : 0xf0 ≤ b.toNat ∧ b.toNat ≤ 0xf4
        · exact readsFirst_four h h₄.1 h₄.2
        · have hstart := @start_nothing position b (by omega)
          simp only [decodeFrom, hstart] at h
          cases h

end Widths

theorem eq_encode_of_decodeFrom : ∀ {cs : List Char} {position : Nat} {bytes : List UInt8},
    decodeFrom position none bytes = .ok cs → bytes = encode cs
  | _, _, [], h => by
    cases h
    rfl
  | [], _, b :: bytes, h => by
    obtain ⟨c, cs', _, _, hcs, -⟩ := exists_of_decodeFrom h
    cases hcs
  | c :: cs, _, b :: bytes, h => by
    obtain ⟨_, _, position', rest, ⟨⟩, hbytes, hrest⟩ := exists_of_decodeFrom h
    rw [hbytes, eq_encode_of_decodeFrom hrest]
    rfl

/-- **Bytes are read as characters if and only if they encode them.** -/
theorem decode_eq_ok_iff {bytes : List UInt8} {cs : List Char} :
    decode bytes = .ok cs ↔ bytes = encode cs :=
  ⟨eq_encode_of_decodeFrom, fun h => h ▸ decode_encode cs⟩

end LineShell.Text.Utf8
