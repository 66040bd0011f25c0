import LineShell.Cli.Transcript
import LineShell.Proofs.Text.Escaping

/-!
# Proofs/Text/Console — which texts a console shows as they are

           front \ ⋯ \          ──▸   kept front   \ ⋯ \
    [red]  front \ ⋯ \  [/red]  ──▸   kept front   half of them

The backslashes at the end of a text are the one place where escaping looks beyond tags: a single
one is doubled, and in an error line all of them stand in front of the closing tag, which halves
them.  Elsewhere only a backslash in front of a bracket can be lost.  So a console shows a text as
it is exactly when its brackets behind backslashes begin tags and the backslashes at its end are few
enough (`ofLine_eq_iff`).  Codes of emoji are text like any other here.
-/

namespace LineShell.Text

/-! ## The backslashes at the end -/

/-- The number of backslashes at the end of a text. -/
def trailingSlashes (cs : List Char) : Nat := leadingSlashes cs.reverse

theorem trailingSlashes_append {front : List Char} (h : front.getLast? ≠ some '\\') (n : Nat) :
    trailingSlashes (front ++ List.replicate n '\\') = n := by
  rw [trailingSlashes, List.reverse_append, List.reverse_replicate]
  refine leadingSlashes_replicate_append ?_ n
  rwa [List.head?_reverse]

theorem head?_drop_leadingSlashes : ∀ cs : List Char,
    (cs.drop (leadingSlashes cs)).head? ≠ some '\\'
  | [] => by simp
  | c :: cs => by
    by_cases hc : c = '\\'
    · subst hc
      simpa [leadingSlashes] using head?_drop_leadingSlashes cs
    · simp [leadingSlashes, hc]

/-- Every text is a front that ends otherwise, and the backslashes at its end. -/
theorem exists_front (cs : List Char) : ∃ front : List Char, front.getLast? ≠ some '\\' ∧
    cs = front ++ List.replicate (trailingSlashes cs) '\\' := by
  refine ⟨(cs.reverse.drop (trailingSlashes cs)).reverse, ?_, ?_⟩
  · rw [List.getLast?_reverse]
    exact head?_drop_leadingSlashes cs.reverse
  · have hparts := congrArg List.reverse (replicate_leadingSlashes_append cs.reverse)
    rw [List.reverse_append, List.reverse_replicate, List.reverse_reverse] at hparts
    exact hparts.symm

theorem not_closes_slashes (n : Nat) : ¬ Closes (List.replicate n '\\') := by
  have h : Closes (List.replicate n '\\' ++ []) ↔ Closes [] := closes_replicate_append
  rw [List.append_nil] at h
  exact mt h.mp not_closes_nil

theorem not_startsTagged_slashes : ∀ n, ¬ StartsTagged (List.replicate n '\\')
  | 0 => not_startsTagged_nil
  | n + 1 => mt startsTagged_slash.mp (not_startsTagged_slashes n)

/-- Backslashes alone are plain. -/
theorem parsed_slashes : ∀ n, Parsed (List.replicate n '\\') (List.replicate n (.plain '\\'))
  | 0 => .nil
  | n + 1 => .plain (not_startsTagged_slashes (n + 1)) (parsed_slashes n)

theorem markupParts_append_slashes (cs : List Char) (n : Nat) :
    markupParts (cs ++ List.replicate n '\\') =
      markupParts cs ++ List.replicate n (.plain '\\') := by
  have hparsed := (parsed_markupParts cs).append (parsed_slashes n) (not_closes_slashes n)
  exact (hparsed fun _ => not_startsTagged_slashes n).markupParts_eq

theorem flatMap_escape_slashes : ∀ n,
    (List.replicate n (.plain '\\')).flatMap MarkupPart.escape = List.replicate n '\\'
  | 0 => rfl
  | n + 1 => by
    rw [List.replicate_succ, List.flatMap_cons, flatMap_escape_slashes n]
    rfl

theorem shown_slashes : ∀ n,
    MarkupPart.shown (List.replicate n (.plain '\\')) = List.replicate n '\\'
  | 0 => rfl
  | n + 1 => by
    rw [List.replicate_succ, MarkupPart.shown_plain_cons, shown_slashes n, if_neg]
    · rfl
    · cases n <;> simp [List.replicate_succ]

theorem beginsTag_append_slashes {n : Nat} : ∀ {cs : List Char},
    BeginsTag (cs ++ List.replicate n '\\') → BeginsTag cs
  | [], h => absurd ⟨0, _, rfl, h⟩ (not_startsTagged_slashes n)
  | [c], h => by
    cases n with
    | zero => exact h
    | succ n => exact absurd (beginsTag_cons_cons.mp h).2.1 (by decide)
  | c :: d :: cs, h => by
    obtain ⟨hc, hd, hclose⟩ := beginsTag_cons_cons.mp h
    exact beginsTag_cons_cons.mpr
      ⟨hc, hd, (closes_append hclose).resolve_right (not_closes_slashes n)⟩

/-- The backslashes at the end stand in front of no bracket. -/
theorem bracketsTagged_append_slashes (n : Nat) : ∀ cs : List Char,
    BracketsTagged (cs ++ List.replicate n '\\') ↔ BracketsTagged cs
  | [] => by
    refine iff_of_true ?_ bracketsTagged_nil
    intro before after he
    have hmem : '[' ∈ List.replicate n '\\' := by
      rw [← List.nil_append (List.replicate n '\\'), he]
      simp
    exact absurd (List.eq_of_mem_replicate hmem) (by decide)
  | c :: cs => by
    have hhead : (cs ++ List.replicate n '\\').head? = some '[' ↔ cs.head? = some '[' := by
      cases cs with
      | nil => cases n <;> simp [List.replicate_succ]
      | cons d cs => rfl
    have hbegins : BeginsTag (cs ++ List.replicate n '\\') ↔ BeginsTag cs := by
      refine ⟨beginsTag_append_slashes, ?_⟩
      rintro ⟨tag, after, rfl, htag⟩
      exact ⟨tag, _, List.append_assoc _ _ _, htag⟩
    rw [List.cons_append, bracketsTagged_cons, bracketsTagged_cons, hhead, hbegins,
      bracketsTagged_append_slashes n cs]

/-- The backslashes that escaping makes of those at the end. -/
def escapedSlashes (n : Nat) : Nat := if n = 1 then 2 else n

theorem isTag_red : IsTag "[red]".toList :=
  ⟨'r', "ed".toList, by decide, by decide, by decide, by decide⟩

theorem isTag_endRed : IsTag "[/red]".toList :=
  ⟨'/', "red".toList, by decide, by decide, by decide, by decide⟩

/-- A text between two tags is rendered alone if the first tag is bare and the second takes all the
backslashes in front of it. -/
theorem render_between {opening closing cs ds : List Char} {qs : List MarkupPart}
    (hopening : IsTag opening) (hclosing : IsTag closing) (h : cs.getLast? ≠ some '\\') (n : Nat)
    (hds : Parsed ds qs) :
    renderMarkup (opening ++ ((markupParts cs).flatMap MarkupPart.escape ++
        (List.replicate n '\\' ++ (closing ++ ds)))) =
      kept cs ++ (MarkupPart.shownTag n closing ++ MarkupPart.shown qs) := by
  have hlast : ((markupParts cs).flatMap MarkupPart.escape).getLast? ≠ some '\\' := by
    rwa [(parsed_markupParts cs).getLast?_escape]
  have hend : Parsed (List.replicate n '\\' ++ (closing ++ ds)) (.tag n closing :: qs) :=
    .tag hclosing hds
  have hclosed : ¬ Closes (List.replicate n '\\' ++ (closing ++ ds)) :=
    mt closes_replicate_append.mp (BeginsTag.not_closes ⟨closing, ds, rfl, hclosing⟩)
  have hparsed := Parsed.tag (n := 0) hopening
    ((parsed_markupParts cs).escape.append hend hclosed fun he => absurd he hlast)
  have hbare : MarkupPart.shownTag 0 opening = [] := rfl
  rw [List.replicate_zero, List.nil_append] at hparsed
  rw [renderMarkup, hparsed.markupParts_eq, MarkupPart.shown, hbare, List.nil_append,
    MarkupPart.shown_append (by simp), MarkupPart.shown, (parsed_markupParts cs).shown_eq_kept]

section Front

variable {front : List Char} (h : front.getLast? ≠ some '\\') (n : Nat)

include h

/-- **Escaping leaves the backslashes at the end plain**, and doubles a single one. -/
theorem escapeMarkup_append_slashes : escapeMarkup (front ++ List.replicate n '\\') =
    (markupParts front).flatMap MarkupPart.escape ++ List.replicate (escapedSlashes n) '\\' := by
  have hlast : ((markupParts front).flatMap MarkupPart.escape).getLast? ≠ some '\\' := by
    rwa [(parsed_markupParts front).getLast?_escape]
  have hone : endsInOneSlash ((markupParts front).flatMap MarkupPart.escape ++
      List.replicate n '\\') = (n == 1) := by
    rw [endsInOneSlash, ← trailingSlashes, trailingSlashes_append hlast]
  simp only [escapeMarkup, markupParts_append_slashes, List.flatMap_append,
    flatMap_escape_slashes, hone, escapedSlashes, beq_iff_eq]
  split
  · next hn => simp [hn]
  · rfl

/-- **What is shown of a normal line…** -/
theorem render_text : renderMarkup (escapeMarkup (front ++ List.replicate n '\\')) =
    kept front ++ List.replicate (escapedSlashes n) '\\' := by
  have hparsed := (parsed_markupParts front).escape.append (parsed_slashes (escapedSlashes n))
    (not_closes_slashes _) fun _ => not_startsTagged_slashes _
  rw [escapeMarkup_append_slashes h, renderMarkup, hparsed.markupParts_eq,
    MarkupPart.shown_append, shown_slashes, (parsed_markupParts front).shown_eq_kept]
  cases escapedSlashes n <;> simp [List.replicate_succ]

/-- **…and of an error line**, where the closing tag takes the backslashes at the end. -/
theorem render_error : renderMarkup ("[red]".toList ++
      escapeMarkup (front ++ List.replicate n '\\') ++ "[/red]".toList) =
    kept front ++ MarkupPart.shownTag (escapedSlashes n) "[/red]".toList := by
  have htext : "[red]".toList ++ escapeMarkup (front ++ List.replicate n '\\') ++
      "[/red]".toList = "[red]".toList ++ ((markupParts front).flatMap MarkupPart.escape ++
        (List.replicate (escapedSlashes n) '\\' ++ ("[/red]".toList ++ []))) := by
    rw [escapeMarkup_append_slashes h]
    simp only [List.append_assoc, List.append_nil]
  rw [htext, render_between isTag_red isTag_endRed h _ .nil, MarkupPart.shown, List.append_nil]

end Front

/-! ## Texts that are shown as they are

Control characters and tabs apart, a console shows what the markup renders. -/

theorem expandTabs_of_notMem : ∀ {cs : List Char} (column : Nat), '\t' ∉ cs →
    expandTabs column cs = cs
  | [], _, _ => rfl
  | c :: cs, column, h => by
    simp only [List.mem_cons, not_or] at h
    simp only [expandTabs, if_neg (Ne.symm h.1), expandTabs_of_notMem _ h.2, ite_self]

/-- The text holds no tab and nothing that would move the cursor or ring the bell. -/
def Steady (cs : List Char) : Prop :=
  ∀ c ∈ ['\t', '\x07', '\x08', '\x0b', '\x0c', '\r'], c ∉ cs

instance (cs : List Char) : Decidable (Steady cs) := List.decidableBAll (· ∉ cs) _

theorem Steady.append {cs ds : List Char} (h : Steady cs) (k : Steady ds) : Steady (cs ++ ds) :=
  fun c hc hmem => (List.mem_append.mp hmem).elim (h c hc) (k c hc)

theorem Steady.sublist {cs ds : List Char} (h : Steady ds) (hs : cs.Sublist ds) : Steady cs :=
  fun c hc hmem => h c hc (hs.subset hmem)

theorem Steady.showPlain {cs : List Char} (h : Steady cs) : showPlain cs = cs := by
  have hkept : cs.filter (!isCursorControl ·) = cs := by
    refine List.filter_eq_self.mpr fun c hc => ?_
    have hne : ∀ d ∈ ['\t', '\x07', '\x08', '\x0b', '\x0c', '\r'], c ≠ d := by
      rintro d hd rfl
      exact h c hd hc
    simp only [List.mem_cons, List.not_mem_nil, or_false, forall_eq_or_imp, forall_eq] at hne
    simp [isCursorControl, hne]
  rw [Text.showPlain, hkept, expandTabs_of_notMem 0 (h '\t' (by simp))]

/-- What is kept of a steady text is steady. -/
theorem Steady.kept {front : List Char} {n : Nat} (h : Steady (front ++ List.replicate n '\\')) :
    Steady (kept front) :=
  h.sublist ((kept_sublist front).trans (List.sublist_append_left _ _))

theorem steady_slashes (n : Nat) : Steady (List.replicate n '\\') := by
  intro c hc hmem
  rw [List.eq_of_mem_replicate hmem] at hc
  exact absurd hc (by decide)

theorem steady_shownTag (n : Nat) : Steady (MarkupPart.shownTag n "[/red]".toList) := by
  refine (steady_slashes _).append ?_
  split
  · decide
  · exact fun c _ => List.not_mem_nil

theorem slashes_escaped_iff {n : Nat} :
    List.replicate (escapedSlashes n) '\\' = List.replicate n '\\' ↔ n ≠ 1 := by
  simp only [List.replicate_inj, or_true, and_true, escapedSlashes]
  split <;> omega

/-- The closing tag of an error line leaves one backslash alone, and no more. -/
theorem shownTag_escaped_iff {n : Nat} :
    MarkupPart.shownTag (escapedSlashes n) "[/red]".toList = List.replicate n '\\' ↔ n < 2 := by
  constructor
  · intro h
    by_contra hn
    rw [escapedSlashes, if_neg (by omega), MarkupPart.shownTag] at h
    split at h
    · have hmem : '[' ∈ List.replicate n '\\' := by
        rw [← h]
        simp
      exact absurd (List.eq_of_mem_replicate hmem) (by decide)
    · rw [List.append_nil, List.replicate_inj] at h
      omega
  · intro hn
    obtain rfl | rfl : n = 0 ∨ n = 1 := by omega
    · rfl
    · rfl

theorem showMarkup_text_iff {cs : List Char} (h : Steady cs) :
    showMarkup (escapeMarkup cs) = cs ↔ BracketsTagged cs ∧ trailingSlashes cs ≠ 1 := by
  obtain ⟨front, hfront, hcs⟩ := exists_front cs
  generalize trailingSlashes cs = n at hcs ⊢
  subst hcs
  rw [showMarkup, render_text hfront, (h.kept.append (steady_slashes _)).showPlain,
    kept_append_eq_iff, slashes_escaped_iff,
    bracketsTagged_append_slashes]

theorem showMarkup_error_iff {cs : List Char} (h : Steady cs) :
    showMarkup ("[red]".toList ++ escapeMarkup cs ++ "[/red]".toList) = cs ↔
      BracketsTagged cs ∧ trailingSlashes cs < 2 := by
  obtain ⟨front, hfront, hcs⟩ := exists_front cs
  generalize trailingSlashes cs = n at hcs ⊢
  subst hcs
  rw [showMarkup, render_error hfront, (h.kept.append (steady_shownTag _)).showPlain,
    kept_append_eq_iff, shownTag_escaped_iff,
    bracketsTagged_append_slashes]

theorem ofList_eq_iff {cs : List Char} {s : String} : String.ofList cs = s ↔ cs = s.toList := by
  rw [← String.toList_inj, String.toList_ofList]

/-- Without backslashes there is nothing to lose. -/
theorem bracketsTagged_of_notMem {cs : List Char} (h : '\\' ∉ cs) : BracketsTagged cs := by
  rintro before after rfl
  simp at h

theorem trailingSlashes_of_notMem {cs : List Char} (h : '\\' ∉ cs) : trailingSlashes cs = 0 := by
  have hlast : cs.getLast? ≠ some '\\' := fun he => h (List.mem_of_getLast? he)
  have hcs := trailingSlashes_append hlast 0
  rwa [List.replicate_zero, List.append_nil] at hcs

end LineShell.Text

namespace LineShell.Cli.Transcript

open Text (Steady BracketsTagged trailingSlashes)

/-- **Which texts a console shows as they are.**  A normal line comes out on the normal stream as it
is if and only if every bracket right behind a backslash begins a tag and the text does not end in
exactly one backslash; an error line comes out on the error stream as it is if and only if the same
holds of its brackets and the text does not end in two backslashes or more.  So a text without
backslashes always does, whatever brackets and tags it holds. -/
theorem ofLine_eq_iff {s : String} (h : Steady s.toList) :
    (ofLine ⟨s, false⟩ = ⟨s ++ "\n", ""⟩ ↔
      BracketsTagged s.toList ∧ trailingSlashes s.toList ≠ 1) ∧
    (ofLine ⟨s, true⟩ = ⟨"", s ++ "\n"⟩ ↔
      BracketsTagged s.toList ∧ trailingSlashes s.toList < 2) ∧
    ('\\' ∉ s.toList →
      ofLine ⟨s, false⟩ = ⟨s ++ "\n", ""⟩ ∧ ofLine ⟨s, true⟩ = ⟨"", s ++ "\n"⟩) := by
  have htext : ofLine ⟨s, false⟩ = ⟨s ++ "\n", ""⟩ ↔
      BracketsTagged s.toList ∧ trailingSlashes s.toList ≠ 1 := by
    rw [← Text.showMarkup_text_iff h, ← Text.ofList_eq_iff, ← Text.showText]
    simp [ofLine, out]
  have herror : ofLine ⟨s, true⟩ = ⟨"", s ++ "\n"⟩ ↔
      BracketsTagged s.toList ∧ trailingSlashes s.toList < 2 := by
    rw [← Text.showMarkup_error_iff h, ← Text.ofList_eq_iff, ← Text.showError]
    simp [ofLine, err]
  refine ⟨htext, herror, fun hs => ?_⟩
  have hzero := Text.trailingSlashes_of_notMem hs
  have hb := Text.bracketsTagged_of_notMem hs
  exact ⟨htext.mpr ⟨hb, by omega⟩, herror.mpr ⟨hb, by omega⟩⟩

/-- A tag behind a backslash, a bracket that nothing closes, and a backslash at the end. -/
theorem ofLine_eq_iff_tagged :
    let s := "]\\[/red] [b\\"
    Steady s.toList ∧ ofLine ⟨s, true⟩ = ⟨"", s ++ "\n"⟩ ∧ ofLine ⟨s, false⟩ ≠ ⟨s ++ "\n", ""⟩ := by
  intro s
  have hs : Steady s.toList := by decide
  have hlist : s.toList =
      [']', '\\', '[', '/', 'r', 'e', 'd', ']', ' ', '[', 'b', '\\'] := by decide
  have hb : BracketsTagged s.toList := by
    simp [hlist, Text.bracketsTagged_cons, Text.bracketsTagged_nil, Text.beginsTag_cons_cons,
      Text.closes_cons, Text.opensTag]
  have hone : trailingSlashes s.toList = 1 := by decide
  obtain ⟨htext, herror, -⟩ := ofLine_eq_iff hs
  exact ⟨hs, herror.mpr ⟨hb, by omega⟩, fun h => (htext.mp h).2 hone⟩

end LineShell.Cli.Transcript
