import LineShell.Proofs.Text.Parts

/-!
# Proofs/Text/Escaping — what is left of a text that is escaped and rendered

    text  ──parts──▸  ps  ──protect──▸  qs  ──shown──▸  text, or less
      └──────── escape ────────▸ escaped text ──parts──▴

Escaping protects the tags of a text and turns nothing else into one (`Parsed.escape`).  A tag that
is protected comes out with its backslashes, so all that is missing are the backslashes right in
front of a bracket that begins no tag (`kept`, `Parsed.shown_eq_kept`).  What is shown is the text
itself exactly when there is no such bracket (`kept_append_eq_iff`).
-/

namespace LineShell.Text

/-! ## Escaping

Escaping adds backslashes in front of tags only, and a backslash neither opens nor closes. -/

/-- The part with its tag protected. -/
def MarkupPart.protect : MarkupPart → MarkupPart
  | plain c => plain c
  | tag n text => tag (2 * n + 1) text

theorem Parsed.closes_escape {cs : List Char} {ps : List MarkupPart} (h : Parsed cs ps) :
    Closes (ps.flatMap MarkupPart.escape) → Closes cs := by
  induction h with
  | nil => exact id
  | @tag n text after ps htag _ ih =>
    intro hc
    rw [List.flatMap_cons, MarkupPart.escape, List.append_assoc, closes_replicate_append] at hc
    exact absurd hc (BeginsTag.not_closes ⟨_, _, rfl, htag⟩)
  | @plain c cs ps _ _ ih =>
    intro hc
    rw [List.flatMap_cons, MarkupPart.escape, List.singleton_append, closes_cons] at hc
    exact closes_cons.mpr (hc.imp_right fun ⟨hne, hc⟩ => ⟨hne, ih hc⟩)

theorem Parsed.startsTagged_escape_cons {cs : List Char} {ps : List MarkupPart}
    (h : Parsed cs ps) (hs : StartsTagged (ps.flatMap MarkupPart.escape) → StartsTagged cs)
    (c : Char) (hc : StartsTagged (c :: ps.flatMap MarkupPart.escape)) :
    StartsTagged (c :: cs) := by
  by_cases hslash : c = '\\'
  · subst hslash
    exact startsTagged_slash.mpr (hs (startsTagged_slash.mp hc))
  · rw [startsTagged_of_ne hslash] at hc ⊢
    cases h with
    | nil => exact absurd hc (not_beginsTag_singleton c)
    | tag htag _ =>
      obtain ⟨-, hopens, -⟩ := beginsTag_cons_cons.mp hc
      exact absurd hopens (by decide)
    | plain _ hps =>
      obtain ⟨rfl, hopens, hclose⟩ := beginsTag_cons_cons.mp hc
      exact beginsTag_cons_cons.mpr ⟨rfl, hopens, hps.closes_escape hclose⟩

theorem Parsed.startsTagged_escape {cs : List Char} {ps : List MarkupPart} (h : Parsed cs ps) :
    StartsTagged (ps.flatMap MarkupPart.escape) → StartsTagged cs := by
  induction h with
  | nil => exact id
  | tag htag _ _ => exact fun _ => ⟨_, _, rfl, _, _, rfl, htag⟩
  | plain _ hps ih => exact hps.startsTagged_escape_cons ih _

/-- **Escaping protects the tags of a text and makes no others.** -/
theorem Parsed.escape {cs : List Char} {ps : List MarkupPart} (h : Parsed cs ps) :
    Parsed (ps.flatMap MarkupPart.escape) (ps.map MarkupPart.protect) := by
  induction h with
  | nil => exact .nil
  | tag htag _ ih =>
    rw [List.flatMap_cons, MarkupPart.escape, List.append_assoc]
    exact .tag htag ih
  | plain hc hps ih =>
    exact .plain (fun hst => hc (hps.startsTagged_escape_cons hps.startsTagged_escape _ hst)) ih

/-- What a text ends in is left alone. -/
theorem Parsed.getLast?_escape {cs : List Char} {ps : List MarkupPart} (h : Parsed cs ps) :
    (ps.flatMap MarkupPart.escape).getLast? = cs.getLast? := by
  induction h with
  | nil => rfl
  | tag htag _ ih =>
    simp only [List.flatMap_cons, MarkupPart.escape, List.getLast?_append, htag.getLast?, ih,
      Option.or_assoc, Option.some_or]
  | plain _ _ ih =>
    rw [List.flatMap_cons, MarkupPart.escape, List.singleton_append, List.getLast?_cons,
      List.getLast?_cons, ih]

/-! ## What is kept

A tag that is protected comes out with its backslashes, so all that can be lost is a plain backslash
in front of a plain bracket.  What is kept of a text can be said character by character. -/

/-- Every bracket right behind a backslash begins a tag. -/
def BracketsTagged (cs : List Char) : Prop :=
  ∀ before after, cs = before ++ '\\' :: '[' :: after → BeginsTag ('[' :: after)

theorem bracketsTagged_nil : BracketsTagged [] := by
  intro before after h
  simp at h

theorem bracketsTagged_cons {c : Char} {cs : List Char} :
    BracketsTagged (c :: cs) ↔
      (c = '\\' → cs.head? = some '[' → BeginsTag cs) ∧ BracketsTagged cs := by
  constructor
  · intro h
    refine ⟨?_, fun before after he => h (c :: before) after (by rw [he]; rfl)⟩
    rintro rfl hhead
    obtain ⟨after, rfl⟩ := List.head?_eq_some_iff.mp hhead
    exact h [] after rfl
  · rintro ⟨hc, hcs⟩ before after he
    cases before with
    | nil =>
      obtain ⟨rfl, rfl⟩ := List.cons.inj he
      exact hc rfl rfl
    | cons d before => exact hcs before after (List.cons.inj he).2

theorem isSome_cutTag?_iff {cs : List Char} : (cutTag? cs).isSome = true ↔ BeginsTag cs := by
  constructor
  · intro h
    obtain ⟨⟨tag, after⟩, hcut⟩ := Option.isSome_iff_exists.mp h
    exact ⟨tag, after, (append_of_cutTag? hcut).1, isTag_of_cutTag? hcut⟩
  · rintro ⟨tag, after, rfl, htag⟩
    rw [htag.cutTag?]
    rfl

instance (cs : List Char) : Decidable (BeginsTag cs) := decidable_of_iff _ isSome_cutTag?_iff

/-- What is left of a text that is escaped and rendered. -/
def kept : List Char → List Char
  | [] => []
  | c :: cs => if c = '\\' ∧ cs.head? = some '[' ∧ ¬ BeginsTag cs then kept cs else c :: kept cs

theorem kept_cons_of_ne {c : Char} (h : c ≠ '\\') (cs : List Char) :
    kept (c :: cs) = c :: kept cs := if_neg fun hlost => h hlost.1

/-- A text without brackets is kept, up to a backslash in front of one. -/
theorem kept_append : ∀ {xs ys : List Char}, '[' ∉ xs →
    (xs.getLast? = some '\\' → ys.head? ≠ some '[') → kept (xs ++ ys) = xs ++ kept ys
  | [], _, _, _ => rfl
  | [c], ys, _, hs => by
    rw [List.singleton_append, kept, if_neg]
    · rfl
    · rintro ⟨rfl, hhead, -⟩
      exact hs rfl hhead
  | c :: d :: xs, ys, h, hs => by
    simp only [List.mem_cons, not_or] at h
    have ih : kept (d :: xs ++ ys) = d :: xs ++ kept ys :=
      kept_append (by simp [h.2.1, h.2.2]) (by simpa using hs)
    rw [List.cons_append, kept, if_neg, ih]
    · rfl
    · rintro ⟨-, hhead, -⟩
      exact h.2.1 (Option.some.inj hhead).symm

theorem kept_tagged {tag : List Char} (h : IsTag tag) (after : List Char) :
    ∀ n, kept (List.replicate n '\\' ++ (tag ++ after)) =
      List.replicate n '\\' ++ (tag ++ kept after)
  | 0 => by
    obtain ⟨c, body, rfl, hc, hopen, -⟩ := h
    have hne : '[' ≠ c := by
      rintro rfl
      exact absurd hc (by decide)
    have hbody : kept (c :: body ++ ']' :: after) = c :: body ++ kept (']' :: after) :=
      kept_append (by simp [hne, hopen]) fun _ => by simp
    have htext : '[' :: c :: (body ++ [']']) ++ after = '[' :: (c :: body ++ ']' :: after) := by
      simp
    rw [List.replicate_zero, List.nil_append, htext, kept_cons_of_ne (by decide), hbody,
      kept_cons_of_ne (by decide)]
    simp
  | n + 1 => by
    rw [List.replicate_succ, List.cons_append, kept, kept_tagged h after n, if_neg]
    · rfl
    · rintro ⟨-, hhead, hbegins⟩
      cases n with
      | zero => exact hbegins ⟨tag, after, rfl, h⟩
      | succ n => cases hhead

/-- **All of a text is kept if its brackets behind backslashes begin tags, and otherwise it loses a
backslash**, so that nothing behind it can make up for that. -/
theorem kept_append_eq_iff {xs ys : List Char} : ∀ {cs : List Char},
    kept cs ++ xs = cs ++ ys ↔ BracketsTagged cs ∧ xs = ys
  | [] => (and_iff_right bracketsTagged_nil).symm
  | c :: cs => by
    rw [kept, bracketsTagged_cons]
    split
    · next hlost =>
      obtain ⟨rfl, hhead, hbegins⟩ := hlost
      obtain ⟨rest, rfl⟩ := List.head?_eq_some_iff.mp hhead
      -- the bracket now stands where the text has the backslash
      refine iff_of_false (fun h => ?_) fun h => hbegins (h.1.1 rfl rfl)
      rw [kept_cons_of_ne (by decide)] at h
      exact absurd (List.cons.inj h).1 (by decide)
    · next hkept =>
      have hbegins : c = '\\' → cs.head? = some '[' → BeginsTag cs := fun hc hhead =>
        Decidable.of_not_not fun hb => hkept ⟨hc, hhead, hb⟩
      rw [List.cons_append, List.cons_append, List.cons_inj_right, kept_append_eq_iff,
        and_iff_right hbegins]

theorem kept_eq_iff {cs : List Char} : kept cs = cs ↔ BracketsTagged cs := by
  have hiff : kept cs ++ [] = cs ++ [] ↔ _ := kept_append_eq_iff
  rwa [List.append_nil, List.append_nil, and_iff_left rfl] at hiff

/-- Nothing is kept that is not in the text. -/
theorem kept_sublist : ∀ cs : List Char, (kept cs).Sublist cs
  | [] => .slnil
  | c :: cs => by
    rw [kept]
    split
    · exact (kept_sublist cs).cons c
    · exact (kept_sublist cs).cons_cons c

/-! ## What is shown

Rendering looks at parts, and what it shows of them once they are protected is what is kept. -/

namespace MarkupPart

/-- A backslash is dropped in front of a plain bracket; every other plain character is shown. -/
theorem shown_plain_cons (c : Char) (ps : List MarkupPart) : shown (plain c :: ps) =
    if c = '\\' ∧ ps.head? = some (plain '[') then shown ps else c :: shown ps := by
  split
  · next h =>
    obtain ⟨rfl, hhead⟩ := h
    obtain ⟨rest, rfl⟩ := List.head?_eq_some_iff.mp hhead
    simp [shown]
  · next h =>
    rw [shown]
    rintro rest rfl rfl
    exact h ⟨rfl, rfl⟩

theorem shownTag_protected (n : Nat) (text : List Char) :
    shownTag (2 * n + 1) text = List.replicate n '\\' ++ text := by
  have hhalf : (2 * n + 1) / 2 = n := by omega
  have hodd : (2 * n + 1) % 2 = 1 := by omega
  rw [shownTag, hhalf, if_pos hodd]

theorem shown_append : ∀ {ps qs : List MarkupPart}, qs.head? ≠ some (plain '[') →
    shown (ps ++ qs) = shown ps ++ shown qs
  | [], _, _ => rfl
  | tag n text :: ps, qs, h => by
    rw [List.cons_append, shown, shown, shown_append h, List.append_assoc]
  | plain c :: ps, qs, h => by
    have hhead : (ps ++ qs).head? = some (plain '[') ↔ ps.head? = some (plain '[') := by
      cases ps with
      | nil => simp [h]
      | cons p ps => rfl
    simp only [List.cons_append, shown_plain_cons, hhead, shown_append h]
    split <;> rfl

end MarkupPart

/-- The first part of a text that starts no tag is its first character. -/
theorem Parsed.head?_eq {cs : List Char} {ps : List MarkupPart} (h : Parsed cs ps)
    (hs : ¬ StartsTagged cs) : ps.head? = cs.head?.map .plain := by
  cases h with
  | nil => rfl
  | tag htag _ => exact absurd ⟨_, _, rfl, _, _, rfl, htag⟩ hs
  | plain _ _ => rfl

/-- A plain character is shown of the protected parts unless it is a backslash in front of a
bracket. -/
theorem Parsed.shown_protect_cons {c : Char} {cs : List Char} {ps : List MarkupPart}
    (h : Parsed cs ps) (hc : ¬ StartsTagged (c :: cs)) :
    MarkupPart.shown ((.plain c :: ps).map MarkupPart.protect) =
      if c = '\\' ∧ cs.head? = some '[' then MarkupPart.shown (ps.map MarkupPart.protect)
      else c :: MarkupPart.shown (ps.map MarkupPart.protect) := by
  have hhead : c = '\\' → ((ps.map MarkupPart.protect).head? = some (.plain '[') ↔
      cs.head? = some '[') := by
    rintro rfl
    rw [List.head?_map, h.head?_eq (mt startsTagged_slash.mpr hc)]
    cases cs <;> simp [MarkupPart.protect]
  rw [List.map_cons, MarkupPart.protect, MarkupPart.shown_plain_cons]
  simp only [and_congr_right_iff.mpr hhead]

/-- **What is shown of the protected parts of a text is what is kept of it.** -/
theorem Parsed.shown_eq_kept {cs : List Char} {ps : List MarkupPart} (h : Parsed cs ps) :
    MarkupPart.shown (ps.map MarkupPart.protect) = kept cs := by
  induction h with
  | nil => rfl
  | tag htag _ ih =>
    rw [kept_tagged htag, List.map_cons, MarkupPart.protect, MarkupPart.shown,
      MarkupPart.shownTag_protected, ih, List.append_assoc]
  | @plain c cs ps hc hps ih =>
    have hbegins : c = '\\' → ¬ BeginsTag cs := by
      rintro rfl hb
      exact hc ⟨1, _, rfl, hb⟩
    rw [hps.shown_protect_cons hc, ih, kept]
    by_cases hlost : c = '\\' ∧ cs.head? = some '['
    · rw [if_pos hlost, if_pos ⟨hlost.1, hlost.2, hbegins hlost.1⟩]
    · rw [if_neg hlost, if_neg fun h => hlost ⟨h.1, h.2.1⟩]

end LineShell.Text
