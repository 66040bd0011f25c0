import LineShell.Proofs.Text.Console
import LineShell.Proofs.Text.JsonStrings

/-!
# Proofs/Text/Kept — what a console keeps of a list that is written as JSON

    words ──writeList──▸ json ──escape, render──▸ kept json ──readList?──▸ words, or nothing

A console loses the backslashes right in front of a bracket that begins no tag.  In JSON such a
backslash is the second of a pair, so the one that is left stands in front of the bracket, which is
no escape: a list whose text loses anything cannot be read any more, and it never reads as another
list (`kept_writeList`).
-/

namespace LineShell.Text

/-! ## Texts without brackets -/

theorem StartsTagged.mem {cs : List Char} (h : StartsTagged cs) : '[' ∈ cs := by
  obtain ⟨n, rest, rfl, hrest⟩ := h
  exact List.mem_append_right _ (List.mem_of_head? hrest.head?)

/-- A text without brackets has plain parts only… -/
theorem parsed_of_notMem : ∀ {cs : List Char}, '[' ∉ cs → Parsed cs (cs.map .plain)
  | [], _ => .nil
  | _ :: _, h =>
    .plain (fun hs => h hs.mem) (parsed_of_notMem fun hmem => h (List.mem_cons_of_mem _ hmem))

theorem flatMap_escape_plain : ∀ cs : List Char, (cs.map .plain).flatMap MarkupPart.escape = cs
  | [] => rfl
  | c :: cs => congrArg (c :: ·) (flatMap_escape_plain cs)

/-- …so escaping leaves it alone, whatever is escaped behind it. -/
theorem escape_parts_append {cs ds : List Char} (hcs : '[' ∉ cs) (hlast : cs.getLast? ≠ some '\\')
    (hds : ¬ Closes ds) : (markupParts (cs ++ ds)).flatMap MarkupPart.escape =
      cs ++ (markupParts ds).flatMap MarkupPart.escape := by
  have hparsed := (parsed_of_notMem hcs).append (parsed_markupParts ds) hds
    fun h => absurd h hlast
  rw [hparsed.markupParts_eq, List.flatMap_append, flatMap_escape_plain]

/-- A text that does not end in a backslash is escaped part by part. -/
theorem escapeMarkup_eq {cs : List Char} (h : cs.getLast? ≠ some '\\') :
    escapeMarkup cs = (markupParts cs).flatMap MarkupPart.escape := by
  have hfront := escapeMarkup_append_slashes h 0
  simpa [escapedSlashes] using hfront

theorem escapeMarkup_of_notMem {cs : List Char} (hcs : '[' ∉ cs)
    (hlast : cs.getLast? ≠ some '\\') : escapeMarkup cs = cs := by
  rw [escapeMarkup_eq hlast, (parsed_of_notMem hcs).markupParts_eq, flatMap_escape_plain]

theorem isTag_dim : IsTag "[dim]".toList :=
  ⟨'d', "im".toList, by decide, by decide, by decide, by decide⟩

theorem isTag_endDim : IsTag "[/dim]".toList :=
  ⟨'/', "dim".toList, by decide, by decide, by decide, by decide⟩

/-- **A dimmed text and the text behind it are rendered as what is kept of each**, unless the first
one ends in a backslash. -/
theorem render_dimmed {cs : List Char} (h : cs.getLast? ≠ some '\\') (ds : List Char) :
    renderMarkup ("[dim]".toList ++ (markupParts cs).flatMap MarkupPart.escape ++
      "[/dim]".toList ++ (markupParts ds).flatMap MarkupPart.escape) = kept cs ++ kept ds := by
  have hbare : MarkupPart.shownTag 0 "[/dim]".toList = [] := rfl
  have hrender := render_between isTag_dim isTag_endDim h 0 (parsed_markupParts ds).escape
  rw [(parsed_markupParts ds).shown_eq_kept, hbare, List.replicate_zero, List.nil_append,
    List.nil_append] at hrender
  rw [← hrender, List.append_assoc, List.append_assoc]

/-! ## What is left of a string -/

/-- A backslash right in front of a bracket. -/
abbrev slashBracket : List Char := ['\\', '[']

theorem hexDigit_ne : ∀ k : Fin 16, hexDigit k ≠ '\\' ∧ hexDigit k ≠ '[' := by decide

theorem kept_unitEscape (n : Nat) (rest : List Char) :
    kept (unitEscape n ++ rest) = unitEscape n ++ kept rest := by
  refine kept_append ?_ fun hlast => ?_
  · intro hmem
    simp only [unitEscape, List.mem_cons, Char.reduceEq, false_or] at hmem
    obtain ⟨k, hk⟩ := exists_of_mem_toHex hmem
    exact absurd hk.symm (hexDigit_ne k).2
  · rw [unitEscape, List.getLast?_cons_cons] at hlast
    have hmem := List.mem_of_getLast? hlast
    simp only [List.mem_cons, Char.reduceEq, false_or] at hmem
    obtain ⟨k, hk⟩ := exists_of_mem_toHex hmem
    exact absurd hk.symm (hexDigit_ne k).1

/-- The bracket that is left behind a backslash is no escape. -/
theorem readUnits?_bracket (cs : List Char) : readUnits? ('\\' :: '[' :: cs) = none := by
  simp [readUnits?, shortEscape?]

/-- A spelling is kept, or its backslash is lost to a bracket and nothing can be read there. -/
theorem Spelled.kept_append {c : Char} {text : List Char} {units : List JsonUnit}
    (h : Spelled c text units) (rest : List Char) :
    kept (text ++ rest) = text ++ kept rest ∨
      c = '\\' ∧ rest.head? = some '[' ∧ readUnits? (kept (text ++ rest)) = none := by
  cases h with
  | plain _ hslash _ => exact .inl (kept_cons_of_ne hslash rest)
  | unit _ => exact .inl (kept_unitEscape _ rest)
  | pair _ =>
    refine .inl ?_
    rw [List.append_assoc, kept_unitEscape, kept_unitEscape, List.append_assoc]
  | @short e he =>
    -- of the short escapes only the backslash ends in one
    by_cases hlost : e = '\\' ∧ rest.head? = some '['
    · obtain ⟨rfl, hhead⟩ := hlost
      obtain ⟨more, rfl⟩ := List.head?_eq_some_iff.mp hhead
      have hfirst : kept (['\\', '\\'] ++ '[' :: more) = '\\' :: kept ('\\' :: '[' :: more) :=
        if_neg fun h => absurd (Option.some.inj h.2.1) (by decide)
      rw [hfirst]
      by_cases hbegins : BeginsTag ('[' :: more)
      · refine .inl (congrArg ('\\' :: ·) ?_)
        exact if_neg fun h => h.2.2 hbegins
      · have hsecond : kept ('\\' :: '[' :: more) = '[' :: kept more := by
          rw [kept, if_pos ⟨rfl, rfl, hbegins⟩, kept_cons_of_ne (by decide)]
        rw [hsecond]
        exact .inr ⟨(Option.some.inj he).symm, rfl, readUnits?_bracket _⟩
    · have hopen : '[' ≠ e := by
        rintro rfl
        cases he
      exact .inl (Text.kept_append (by simp [hopen]) fun hlast hhead =>
        hlost ⟨by simpa using hlast, hhead⟩)

/-- Only a bracket is written with a bracket in front. -/
theorem Spelled.eq_bracket {c : Char} {text : List Char} {units : List JsonUnit}
    (h : Spelled c text units) {rest : List Char} (hhead : (text ++ rest).head? = some '[') :
    c = '[' := by
  cases h with
  | plain => exact Option.some.inj hhead
  | short | unit | pair => cases hhead

/-- The characters of a string are kept, or one of its brackets takes a backslash and the string
cannot be read. -/
theorem kept_flatMap : ∀ (cs rest : List Char),
    kept (cs.flatMap jsonChar ++ '"' :: rest) = cs.flatMap jsonChar ++ '"' :: kept rest ∨
      slashBracket <:+: cs ∧ readUnits? (kept (cs.flatMap jsonChar ++ '"' :: rest)) = none
  | [], rest => .inl (kept_cons_of_ne (by decide) rest)
  | c :: cs, rest => by
    obtain ⟨units, hc⟩ := exists_spelled_jsonChar c
    rw [List.flatMap_cons, List.append_assoc, List.append_assoc]
    obtain hkept | ⟨hslash, hhead, hnone⟩ := hc.kept_append (cs.flatMap jsonChar ++ '"' :: rest)
    · rw [hkept]
      obtain hrest | ⟨hmem, hnone⟩ := kept_flatMap cs rest
      · exact .inl (by rw [hrest])
      · refine .inr ⟨hmem.trans (List.suffix_cons c cs).isInfix, ?_⟩
        rw [hc.readUnits?_append, hnone]
        rfl
    · refine .inr ⟨?_, hnone⟩
      cases cs with
      | nil => cases hhead
      | cons d cs =>
        obtain ⟨_, hd⟩ := exists_spelled_jsonChar d
        rw [List.flatMap_cons, List.append_assoc] at hhead
        rw [hslash, hd.eq_bracket hhead]
        exact ⟨[], cs, rfl⟩

theorem writeString_append (s : String) (rest : List Char) :
    writeString s ++ rest = '"' :: (s.toList.flatMap jsonChar ++ '"' :: rest) := by
  simp [writeString]

/-- A written string is kept, or it cannot be read. -/
theorem kept_writeString (s : String) (rest : List Char) :
    kept (writeString s ++ rest) = writeString s ++ kept rest ∨
      slashBracket <:+: s.toList ∧ readString? (kept (writeString s ++ rest)) = none := by
  rw [writeString_append, writeString_append, kept_cons_of_ne (by decide)]
  obtain hkept | ⟨hmem, hnone⟩ := kept_flatMap s.toList rest
  · exact .inl (congrArg ('"' :: ·) hkept)
  · refine .inr ⟨hmem, ?_⟩
    simp [readString?, hnone]

/-! ## What is left of a list

A reader of a list goes on behind a string only if it has read it. -/

/-- Reads a string and then the elements that follow it. -/
def readOn? (fuel : Nat) (cs : List Char) : Option (List String × List Char) :=
  (readString? cs).bind fun first => readMore? fuel first.2

theorem readMore?_of_readOn? {fuel : Nat} {rest : List Char}
    (h : readOn? fuel (skipJsonSpace rest) = none) : readMore? (fuel + 1) (',' :: rest) = none := by
  rw [readOn?] at h
  cases hfirst : readString? (skipJsonSpace rest) with
  | none => simp [readMore?, skipJsonSpace, hfirst]
  | some first =>
    obtain ⟨s, after⟩ := first
    have hmore : readMore? fuel after = none := by simpa [hfirst] using h
    simp [readMore?, skipJsonSpace, hfirst, hmore]

theorem readList?_of_readOn? {rest : List Char} (hquote : rest.head? = some '"')
    (h : ∀ fuel, readOn? fuel rest = none) : readList? ('[' :: rest) = none := by
  obtain ⟨more, rfl⟩ := List.head?_eq_some_iff.mp hquote
  have hfuel : readOn? (more.length + 2) ('"' :: more) = none := h _
  rw [readOn?] at hfuel
  cases hfirst : readString? ('"' :: more) with
  | none => simp [readList?, skipJsonSpace, hfirst]
  | some first =>
    obtain ⟨s, after⟩ := first
    have hmore : readMore? (more.length + 2) after = none := by simpa [hfirst] using hfuel
    simp [readList?, skipJsonSpace, hfirst, hmore]

theorem head?_kept_writeString (s : String) (rest : List Char) :
    (kept (writeString s ++ rest)).head? = some '"' := by
  rw [writeString_append, kept_cons_of_ne (by decide)]
  rfl

/-- A string in front of elements is kept with them, or they cannot be read together. -/
theorem kept_element (s : String) {rest : List Char} {p : Prop}
    (h : kept rest = rest ∨ p ∧ ∀ fuel, readMore? fuel (kept rest) = none) :
    kept (writeString s ++ rest) = writeString s ++ rest ∨
      (slashBracket <:+: s.toList ∨ p) ∧
        ∀ fuel, readOn? fuel (kept (writeString s ++ rest)) = none := by
  obtain hs | ⟨hmem, hnone⟩ := kept_writeString s rest
  · rw [hs]
    obtain hrest | ⟨hp, hnone⟩ := h
    · exact .inl (by rw [hrest])
    · refine .inr ⟨.inr hp, fun fuel => ?_⟩
      rw [readOn?, readString?_writeString]
      exact hnone fuel
  · refine .inr ⟨.inl hmem, fun fuel => ?_⟩
    rw [readOn?, hnone]
    rfl

/-- The elements behind the first one are kept, or they cannot be read. -/
theorem kept_writeMore : ∀ ss : List String,
    kept (writeMore ss ++ [']']) = writeMore ss ++ [']'] ∨
      (∃ s ∈ ss, slashBracket <:+: s.toList) ∧
        ∀ fuel, readMore? fuel (kept (writeMore ss ++ [']'])) = none
  | [] => .inl rfl
  | s :: ss => by
    have htext : writeMore (s :: ss) ++ [']'] =
        ',' :: ' ' :: (writeString s ++ (writeMore ss ++ [']'])) := by
      simp [writeMore]
    rw [htext, kept_cons_of_ne (by decide), kept_cons_of_ne (by decide)]
    obtain hkept | ⟨hmem, hnone⟩ := kept_element s (kept_writeMore ss)
    · exact .inl (by rw [hkept])
    · refine .inr ⟨by simpa using hmem, fun fuel => ?_⟩
      cases fuel with
      | zero => rfl
      | succ fuel =>
        refine readMore?_of_readOn? ?_
        obtain ⟨more, hmore⟩ := List.head?_eq_some_iff.mp
          (head?_kept_writeString s (writeMore ss ++ [']']))
        have hnone := hnone fuel
        rw [hmore] at hnone ⊢
        exact hnone

/-- **A list is kept as it is written, or it cannot be read any more**, and then one of its texts
holds a backslash right in front of a bracket. -/
theorem kept_writeList : ∀ ss : List String, kept (writeList ss) = writeList ss ∨
    (∃ s ∈ ss, slashBracket <:+: s.toList) ∧ readList? (kept (writeList ss)) = none
  | [] => .inl rfl
  | s :: ss => by
    have htext : writeList (s :: ss) = '[' :: (writeString s ++ (writeMore ss ++ [']'])) := by
      simp [writeList, writeElements_cons]
    rw [htext, kept_cons_of_ne (by decide)]
    obtain hkept | ⟨hmem, hnone⟩ := kept_element s (kept_writeMore ss)
    · exact .inl (by rw [hkept])
    · exact .inr ⟨by simpa using hmem, readList?_of_readOn? (head?_kept_writeString s _) hnone⟩

/-- Which of the two it is, is decided by the brackets of the written list. -/
theorem kept_writeList_cases (ss : List String) :
    BracketsTagged (writeList ss) ∧ kept (writeList ss) = writeList ss ∨
      ¬ BracketsTagged (writeList ss) ∧ readList? (kept (writeList ss)) = none := by
  rw [← kept_eq_iff]
  obtain hkept | ⟨-, hnone⟩ := kept_writeList ss
  · exact .inl ⟨hkept, hkept⟩
  · refine .inr ⟨fun hkept => ?_, hnone⟩
    rw [hkept, readList?_writeList] at hnone
    cases hnone

/-- A list whose texts hold no backslash right in front of a bracket loses nothing. -/
theorem bracketsTagged_writeList {ss : List String}
    (h : ∀ s ∈ ss, ¬ slashBracket <:+: s.toList) : BracketsTagged (writeList ss) := by
  obtain hkept | ⟨⟨s, hs, hslash⟩, -⟩ := kept_writeList ss
  · exact kept_eq_iff.mp hkept
  · exact absurd hslash (h s hs)

end LineShell.Text
