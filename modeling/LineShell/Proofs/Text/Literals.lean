import LineShell.Proofs.Text.Console
import LineShell.Proofs.Text.JsonStrings
import LineShell.Text.Literal

/-!
# Proofs/Text/Literals — what a quoted literal is made of

    c  ──literal──▸  quote  c, or an escape  quote

An escape is a backslash, a letter or a mark, and digits, all of them visible and none a bracket
that opens a tag.  So a literal is printable, and it holds a bracket only if it is the literal of
one (`inert_or_self`).
-/

namespace LineShell.Text

/-! ## Printable texts -/

theorem isPrintable_of_isVisible {c : Char} (h : IsVisible c) : isPrintable c = true := by
  have hall : ∀ n : Fin 0x7f, 0x20 ≤ n.val → inRanges unprintableRanges n.val = false := by decide
  have hlt : c.toNat < 0x7f := by
    have hhigh := h.2
    omega
  rw [isPrintable, hall ⟨c.toNat, hlt⟩ h.1]
  rfl

/-- A printable text moves no cursor. -/
theorem steady_of_isPrintable {cs : List Char} (h : ∀ c ∈ cs, isPrintable c = true) :
    Steady cs := by
  have hcontrol : ['\t', '\x07', '\x08', '\x0b', '\x0c', '\r'].all (!isPrintable ·) = true := by
    decide
  intro c hc hmem
  have hunprintable := List.all_eq_true.mp hcontrol c hc
  rw [h c hmem] at hunprintable
  cases hunprintable

/-! ## Literals -/

/-- The character is visible and opens no tag. -/
def IsInert (c : Char) : Prop := IsVisible c ∧ c ≠ '['

instance (c : Char) : Decidable (IsInert c) := inferInstanceAs (Decidable (_ ∧ _))

instance (cs : List Char) : Decidable (∀ c ∈ cs, IsInert c) := List.decidableBAll IsInert cs

theorem isInert_hexDigit : ∀ k : Fin 16, IsInert (hexDigit k) := by decide

theorem isInert_toHex (w n : Nat) : ∀ d ∈ toHex w n, IsInert d := by
  intro d hd
  obtain ⟨k, rfl⟩ := exists_of_mem_toHex hd
  exact isInert_hexDigit k

theorem exists_codePointEscape (c : Char) : ∃ mark ∈ ['x', 'u', 'U'], ∃ width,
    codePointEscape c = '\\' :: mark :: toHex width c.toNat := by
  simp only [codePointEscape]
  split
  · exact ⟨'x', by decide, 2, rfl⟩
  · split
    · exact ⟨'u', by decide, 4, rfl⟩
    · exact ⟨'U', by decide, 8, rfl⟩

theorem isInert_codePointEscape (c : Char) : ∀ d ∈ codePointEscape c, IsInert d := by
  obtain ⟨mark, hmark, width, htext⟩ := exists_codePointEscape c
  have hmarks : ∀ mark ∈ ['x', 'u', 'U'], IsInert mark := by decide
  have hslash : IsInert '\\' := by decide
  rw [htext]
  intro d hd
  simp only [List.mem_cons] at hd
  obtain rfl | rfl | hd := hd
  · exact hslash
  · exact hmarks d hmark
  · exact isInert_toHex width c.toNat d hd

theorem delimiter_eq (cs : List Char) : delimiter cs = '"' ∨ delimiter cs = '\'' := by
  unfold delimiter
  split
  · exact .inl rfl
  · exact .inr rfl

/-- A character of a literal is inert, or it is printable and stands for itself. -/
theorem inert_or_self {quote c d : Char} (hquote : quote = '"' ∨ quote = '\'')
    (hd : d ∈ literalChar isPrintable quote c) : IsInert d ∨ d = c ∧ isPrintable c = true := by
  have hmarks : ∀ e ∈ ['"', '\'', '\\', 't', 'n', 'r'], IsInert e := by decide
  have hescapes : ∀ e ∈ ['"', '\'', '\\', 't', 'n', 'r'], ∀ d ∈ ['\\', e], IsInert d := by
    intro e he
    rw [List.forall_mem_cons, List.forall_mem_singleton]
    exact ⟨hmarks '\\' (by decide), hmarks e he⟩
  -- the quote and the backslash, the three short escapes, and then what is printable
  unfold literalChar at hd
  split at hd
  · next hc =>
    simp only [Bool.or_eq_true, beq_iff_eq] at hc
    refine .inl (hescapes c ?_ d hd)
    obtain rfl | rfl := hc
    · obtain rfl | rfl := hquote <;> decide
    · decide
  · split at hd
    · exact .inl (hescapes 't' (by decide) d hd)
    · split at hd
      · exact .inl (hescapes 'n' (by decide) d hd)
      · split at hd
        · exact .inl (hescapes 'r' (by decide) d hd)
        · split at hd
          · next hplain => exact .inr ⟨List.mem_singleton.mp hd, hplain⟩
          · exact .inl (isInert_codePointEscape c d hd)

/-- The literal of a character stands in quotes of one kind. -/
theorem toList_literal (c : Char) : ∃ quote, (quote = '"' ∨ quote = '\'') ∧
    (literal (String.singleton c)).toList =
      quote :: literalChar isPrintable quote c ++ [quote] := by
  refine ⟨delimiter [c], delimiter_eq _, ?_⟩
  rw [literal, String.toList_ofList, String.toList_singleton, literalWith]
  simp

end LineShell.Text
