import LineShell.Text.JsonStrings

/-!
# Proofs/Text/JsonStrings — a written list of texts is read back

    character ──jsonChar──▸ "\\u…" ──readUnits?──▸ units ──combineUnits?──▸ character

There are four ways to write a character (`Spelled`): as itself, as a short escape, as one UTF-16
unit, and as the two units of a surrogate pair.  Each is read as its units whatever stands behind
it, and the units are combined into the character whatever units follow.  So a JSON string, and
then a JSON array, is read back as it was written (`readList?_writeList`), and all of it is visible
ASCII (`isVisible_writeList`).
-/

namespace LineShell.Text

/-- The character is visible in ASCII, or the space. -/
def IsVisible (c : Char) : Prop := 0x20 ≤ c.toNat ∧ c.toNat ≤ 0x7e

instance (c : Char) : Decidable (IsVisible c) :=
  inferInstanceAs (Decidable (0x20 ≤ c.toNat ∧ c.toNat ≤ 0x7e))

instance (cs : List Char) : Decidable (∀ c ∈ cs, IsVisible c) := List.decidableBAll IsVisible cs

/-! ## Numbers of four digits -/

theorem exists_of_mem_toHex {c : Char} : ∀ {w n : Nat}, c ∈ toHex w n → ∃ k : Fin 16, c = hexDigit k
  | w + 1, n, h => by
    obtain h | h := List.mem_append.mp h
    · exact exists_of_mem_toHex h
    · exact ⟨⟨n % 16, Nat.mod_lt n (by decide)⟩, List.mem_singleton.mp h⟩

theorem isVisible_hexDigit : ∀ k : Fin 16, IsVisible (hexDigit k) := by decide

theorem isVisible_unitEscape (n : Nat) : ∀ c ∈ unitEscape n, IsVisible c := by
  intro c hc
  simp only [unitEscape, List.mem_cons] at hc
  obtain rfl | rfl | hc := hc
  · decide
  · decide
  · obtain ⟨k, rfl⟩ := exists_of_mem_toHex hc
    exact isVisible_hexDigit k

theorem readUnits?_unitEscape {n : Nat} (h : n < 0x10000) (rest : List Char) :
    readUnits? (unitEscape n ++ rest) =
      (readUnits? rest).map (Prod.map (.code n :: ·) id) := by
  obtain ⟨a, b, c, d, hdigits⟩ : ∃ a b c d, toHex 4 n = [a, b, c, d] := by
    simp [toHex]
  have hread : ofHex? [a, b, c, d] = some n := by
    rw [← hdigits]
    exact ofHex?_toHex 4 n h
  rw [unitEscape, hdigits]
  simp only [List.cons_append, List.nil_append, readUnits?, hread]
  cases readUnits? rest <;> rfl

/-! ## Characters -/

/-- The two numbers are a surrogate pair for the character. -/
structure SurrogatePair (c : Char) (high low : Nat) : Prop where
  high_range : 0xd800 ≤ high ∧ high < 0xdc00
  low_range : 0xdc00 ≤ low ∧ low < 0xe000
  toNat_eq : c.toNat = 0x10000 + (high - 0xd800) * 0x400 + (low - 0xdc00)

/-- How a JSON string may spell a character, and the units that it reads there. -/
inductive Spelled (c : Char) : List Char → List JsonUnit → Prop
  | plain : c ≠ '"' → c ≠ '\\' → IsVisible c → Spelled c [c] [.char c]
  | short {e : Char} : shortEscape? e = some c → Spelled c ['\\', e] [.char c]
  | unit : c.toNat < 0x10000 → Spelled c (unitEscape c.toNat) [.code c.toNat]
  | pair {high low : Nat} : SurrogatePair c high low →
      Spelled c (unitEscape high ++ unitEscape low) [.code high, .code low]

/-- Every character is written in one of these ways. -/
theorem exists_spelled_jsonChar (c : Char) : ∃ units, Spelled c (jsonChar c) units := by
  by_cases hshort : c ∈ ['"', '\\', '\n', '\r', '\t', '\x0c', '\x08']
  · simp only [List.mem_cons, List.not_mem_nil, or_false] at hshort
    rcases hshort with rfl | rfl | rfl | rfl | rfl | rfl | rfl <;> exact ⟨_, .short rfl⟩
  · simp only [List.mem_cons, List.not_mem_nil, or_false, not_or] at hshort
    by_cases hvisible : 0x20 ≤ c.toNat ∧ c.toNat ≤ 0x7e
    · have htext : jsonChar c = [c] := by
        simp only [jsonChar, hshort, if_false, if_pos hvisible]
      rw [htext]
      exact ⟨_, .plain hshort.1 hshort.2.1 hvisible⟩
    · by_cases hunit : c.toNat < 0x10000
      · have htext : jsonChar c = unitEscape c.toNat := by
          simp only [jsonChar, hshort, if_false, if_neg hvisible, if_pos hunit]
        rw [htext]
        exact ⟨_, .unit hunit⟩
      · have htext : jsonChar c = unitEscape (0xd800 + (c.toNat - 0x10000) / 0x400) ++
            unitEscape (0xdc00 + (c.toNat - 0x10000) % 0x400) := by
          simp only [jsonChar, hshort, if_false, if_neg hvisible, if_neg hunit]
        have hvalid : c.toNat < 0xd800 ∨ 0xdfff < c.toNat ∧ c.toNat < 0x110000 := c.valid
        rw [htext]
        exact ⟨_, .pair ⟨by omega, by omega, by omega⟩⟩

namespace Spelled

variable {c : Char} {text : List Char} {units : List JsonUnit} (h : Spelled c text units)

include h

theorem isVisible : ∀ d ∈ text, IsVisible d := by
  cases h with
  | plain _ _ hvisible => simpa using hvisible
  | @short e he =>
    have hescape : IsVisible e := by
      unfold shortEscape? at he
      split at he <;> first | decide | cases he
    have hslash : IsVisible '\\' := by decide
    simp [hslash, hescape]
  | unit _ => exact isVisible_unitEscape _
  | pair _ =>
    exact fun d hd => (List.mem_append.mp hd).elim (isVisible_unitEscape _ d)
      (isVisible_unitEscape _ d)

/-- **A spelling is read as its units, whatever stands behind it…** -/
theorem readUnits?_append (rest : List Char) : readUnits? (text ++ rest) =
    (readUnits? rest).map (Prod.map (units ++ ·) id) := by
  cases h with
  | plain hquote hslash hvisible =>
    have hcontrol : ¬ (c = '\\' ∨ c.toNat < 0x20) := by
      rintro (rfl | hlow)
      · exact hslash rfl
      · exact absurd hvisible.1 (by omega)
    rw [List.singleton_append, readUnits?, if_neg hcontrol]
    · rfl
    · exact hquote
    · rintro _ _ _ _ _ rfl
      exact absurd rfl hslash
    · rintro _ _ rfl
      exact absurd rfl hslash
  | @short e he =>
    have hne : e ≠ 'u' := by
      rintro rfl
      cases he
    rw [List.cons_append, List.singleton_append, readUnits?, he]
    · cases readUnits? rest <;> rfl
    · rintro _ _ _ _ _ rfl
      exact absurd rfl hne
  | unit hunit => exact readUnits?_unitEscape hunit rest
  | @pair high low hpair =>
    have hhigh := hpair.high_range
    have hlow := hpair.low_range
    rw [List.append_assoc, readUnits?_unitEscape (by omega), readUnits?_unitEscape (by omega),
      Option.map_map]
    rfl

/-- **…and its units are combined into the character, whatever units follow.** -/
theorem combineUnits?_append (us : List JsonUnit) : combineUnits? (units ++ us) =
    (combineUnits? us).map (c :: ·) := by
  have hvalid : c.toNat < 0xd800 ∨ 0xdfff < c.toNat ∧ c.toNat < 0x110000 := c.valid
  cases h with
  | plain => rfl
  | short => rfl
  | unit hunit =>
    have halone : ¬ (0xd800 ≤ c.toNat ∧ c.toNat < 0xe000) := by omega
    have hfirst : ∀ m, ¬ (0xd800 ≤ c.toNat ∧ c.toNat < 0xdc00 ∧ 0xdc00 ≤ m ∧ m < 0xe000) := by
      omega
    cases us with
    | nil => simp [combineUnits?, halone, Char.ofNat_toNat]
    | cons u us =>
      cases u with
      | char d => simp [combineUnits?, halone, Char.ofNat_toNat]
      | code m =>
        simp only [List.singleton_append, combineUnits?, if_neg (hfirst m), if_neg halone,
          Char.ofNat_toNat]
  | @pair high low hpair =>
    have hranges : 0xd800 ≤ high ∧ high < 0xdc00 ∧ 0xdc00 ≤ low ∧ low < 0xe000 :=
      ⟨hpair.high_range.1, hpair.high_range.2, hpair.low_range⟩
    simp only [List.cons_append, List.nil_append, combineUnits?, if_pos hranges]
    rw [← hpair.toNat_eq, Char.ofNat_toNat]

end Spelled

/-! ## Strings -/

/-- The characters of a written string are read up to its closing quote. -/
theorem exists_units : ∀ cs rest : List Char, ∃ units,
    readUnits? (cs.flatMap jsonChar ++ '"' :: rest) = some (units, rest) ∧
      combineUnits? units = some cs
  | [], rest => ⟨[], by simp [readUnits?], rfl⟩
  | c :: cs, rest => by
    obtain ⟨units, hc⟩ := exists_spelled_jsonChar c
    obtain ⟨us, hread, hcombine⟩ := exists_units cs rest
    refine ⟨units ++ us, ?_, ?_⟩
    · rw [List.flatMap_cons, List.append_assoc, hc.readUnits?_append, hread]
      rfl
    · rw [hc.combineUnits?_append, hcombine]
      rfl

/-- **A written string is read back**, whatever stands behind it. -/
theorem readString?_writeString (s : String) (rest : List Char) :
    readString? (writeString s ++ rest) = some (s, rest) := by
  obtain ⟨units, hread, hcombine⟩ := exists_units s.toList rest
  have htext : writeString s ++ rest = '"' :: (s.toList.flatMap jsonChar ++ '"' :: rest) := by
    simp [writeString]
  rw [htext, readString?]
  simp only [hread, hcombine, Option.bind_eq_bind, Option.bind_some, Option.pure_def,
    String.ofList_toList]

theorem isVisible_writeString (s : String) : ∀ c ∈ writeString s, IsVisible c := by
  have hquote : IsVisible '"' := by decide
  intro c hc
  simp only [writeString, List.cons_append, List.mem_cons, List.mem_append, List.mem_flatMap,
    List.not_mem_nil, or_false] at hc
  obtain rfl | ⟨d, -, hc⟩ | rfl := hc
  · exact hquote
  · obtain ⟨units, hd⟩ := exists_spelled_jsonChar d
    exact hd.isVisible c hc
  · exact hquote

/-! ## Lists -/

/-- The elements behind the first one, each behind its comma. -/
def writeMore (ss : List String) : List Char := ss.flatMap fun s => ',' :: ' ' :: writeString s

theorem writeElements_cons (s : String) : ∀ ss : List String,
    writeElements (s :: ss) = writeString s ++ writeMore ss
  | [] => by simp [writeElements, writeMore]
  | t :: ss => by
    rw [writeElements, writeElements_cons t ss]
    · simp [writeMore]
    · simp

theorem skipJsonSpace_writeString (s : String) (rest : List Char) :
    skipJsonSpace (writeString s ++ rest) = writeString s ++ rest := by
  simp [writeString, skipJsonSpace]

/-- A comma and a string that is read are one more element. -/
theorem readMore?_comma {fuel : Nat} {rest after final : List Char} {s : String}
    {ss : List String} (hs : readString? (skipJsonSpace rest) = some (s, after))
    (hmore : readMore? fuel after = some (ss, final)) :
    readMore? (fuel + 1) (',' :: rest) = some (s :: ss, final) := by
  simp [readMore?, skipJsonSpace, hs, hmore]

theorem readMore?_writeMore (rest : List Char) : ∀ {fuel : Nat} (ss : List String),
    ss.length < fuel → readMore? fuel (writeMore ss ++ ']' :: rest) = some (ss, rest)
  | _ + 1, [], _ => rfl
  | fuel + 1, s :: ss, h => by
    have ih : readMore? fuel (writeMore ss ++ ']' :: rest) = some (ss, rest) :=
      readMore?_writeMore rest ss (by simpa using h)
    have htext : writeMore (s :: ss) ++ ']' :: rest =
        ',' :: ' ' :: (writeString s ++ (writeMore ss ++ ']' :: rest)) := by
      simp [writeMore]
    have hspace : skipJsonSpace (' ' :: (writeString s ++ (writeMore ss ++ ']' :: rest))) =
        writeString s ++ (writeMore ss ++ ']' :: rest) := skipJsonSpace_writeString s _
    rw [htext]
    refine readMore?_comma ?_ ih
    rw [hspace, readString?_writeString]

theorem length_writeMore (ss : List String) : ss.length ≤ (writeMore ss).length := by
  induction ss with
  | nil => exact Nat.zero_le _
  | cons s ss ih =>
    have hcons : writeMore (s :: ss) = ',' :: ' ' :: (writeString s ++ writeMore ss) := rfl
    simp only [hcons, List.length_cons, List.length_append]
    omega

/-- A string that is read behind the opening bracket is the first element. -/
theorem readList?_open {rest after : List Char} {s : String} {ss : List String}
    (hs : readString? (skipJsonSpace rest) = some (s, after))
    (hmore : readMore? ('[' :: rest).length after = some (ss, [])) :
    readList? ('[' :: rest) = some (s :: ss) := by
  have hopen : skipJsonSpace ('[' :: rest) = '[' :: rest := rfl
  -- the branch of the empty list is closed by this fact
  have hclose : ∀ cs, skipJsonSpace rest ≠ ']' :: cs := by
    intro cs he
    rw [he] at hs
    cases hs
  have hend : skipJsonSpace [] = [] := rfl
  simp only [readList?, hopen, hs, hmore, Option.bind_eq_bind, Option.bind_some, hend, if_true,
    Option.pure_def]

/-- **A written list is read back.** -/
theorem readList?_writeList : ∀ ss : List String, readList? (writeList ss) = some ss
  | [] => rfl
  | s :: ss => by
    have htext : writeList (s :: ss) = '[' :: (writeString s ++ (writeMore ss ++ [']'])) := by
      simp [writeList, writeElements_cons]
    have hlength := length_writeMore ss
    rw [htext]
    refine readList?_open ?_ (readMore?_writeMore [] ss ?_)
    · rw [skipJsonSpace_writeString, readString?_writeString]
    · simp only [List.length_cons, List.length_append]
      omega

theorem isVisible_writeMore (ss : List String) : ∀ c ∈ writeMore ss, IsVisible c := by
  have hcomma : IsVisible ',' := by decide
  have hspace : IsVisible ' ' := by decide
  intro c hc
  simp only [writeMore, List.mem_flatMap, List.mem_cons] at hc
  obtain ⟨s, -, rfl | rfl | hc⟩ := hc
  · exact hcomma
  · exact hspace
  · exact isVisible_writeString s c hc

/-- **A written list is visible ASCII.** -/
theorem isVisible_writeList : ∀ ss : List String, ∀ c ∈ writeList ss, IsVisible c
  | [] => by decide
  | s :: ss => by
    have hopen : IsVisible '[' := by decide
    have hclose : IsVisible ']' := by decide
    intro c hc
    simp only [writeList, writeElements_cons, List.cons_append, List.mem_cons, List.mem_append,
      List.not_mem_nil, or_false] at hc
    obtain rfl | (hc | hc) | rfl := hc
    · exact hopen
    · exact isVisible_writeString s c hc
    · exact isVisible_writeMore ss c hc
    · exact hclose

end LineShell.Text
