import LineShell.Text.Markup
import Mathlib.Data.List.Basic

/-!
# Proofs/Text/Parts — the parts of a text, said without scanning

    text  =  \ ⋯ \ tag   c   c   \ ⋯ \ tag   c   ⋯        (`Parsed`)

A tag takes all the backslashes in front of it, and a plain character starts no tag, not even
behind backslashes.  That is the whole rule: the scan finds these parts and no others
(`parsed_iff`), so nothing below looks at how it cuts a text.  Texts in a row keep their parts
unless a bracket of the first is closed by the second, or the second begins with a tag that takes
backslashes of the first (`Parsed.append`).
-/

namespace LineShell.Text

/-! ## Tags

The tag rule in one sentence, for texts that may go on behind it. -/

/-- The text is a tag. -/
def IsTag (cs : List Char) : Prop :=
  ∃ c body, cs = '[' :: c :: (body ++ [']']) ∧ opensTag c = true ∧ '[' ∉ body ∧ ']' ∉ body

/-- The text begins with a tag… -/
def BeginsTag (cs : List Char) : Prop := ∃ tag after, cs = tag ++ after ∧ IsTag tag

/-- …or with backslashes and a tag. -/
def StartsTagged (cs : List Char) : Prop :=
  ∃ n rest, cs = List.replicate n '\\' ++ rest ∧ BeginsTag rest

/-- The first bracket of the text closes. -/
def Closes (cs : List Char) : Prop :=
  ∃ body after, cs = body ++ ']' :: after ∧ '[' ∉ body ∧ ']' ∉ body

theorem not_closes_nil : ¬ Closes [] := by simp [Closes]

theorem closes_cons {c : Char} {cs : List Char} :
    Closes (c :: cs) ↔ c = ']' ∨ c ≠ '[' ∧ Closes cs := by
  constructor
  · rintro ⟨body, after, h, hopen, hclose⟩
    cases body with
    | nil =>
      obtain ⟨rfl, -⟩ := List.cons.inj h
      exact .inl rfl
    | cons d body =>
      obtain ⟨rfl, rfl⟩ := List.cons.inj h
      simp only [List.mem_cons, not_or] at hopen hclose
      exact .inr ⟨Ne.symm hopen.1, body, after, rfl, hopen.2, hclose.2⟩
  · rintro (rfl | ⟨hne, body, after, rfl, hopen, hclose⟩)
    · exact ⟨[], cs, rfl, List.not_mem_nil, List.not_mem_nil⟩
    · by_cases hc : c = ']'
      · subst hc
        exact ⟨[], _, rfl, List.not_mem_nil, List.not_mem_nil⟩
      · exact ⟨c :: body, after, rfl, by simp [Ne.symm hne, hopen], by simp [Ne.symm hc, hclose]⟩

theorem closes_append : ∀ {xs ys : List Char}, Closes (xs ++ ys) → Closes xs ∨ Closes ys
  | [], _, h => .inr h
  | x :: xs, ys, h => by
    obtain rfl | ⟨hne, h⟩ := closes_cons.mp h
    · exact .inl (closes_cons.mpr (.inl rfl))
    · exact (closes_append h).imp_left fun hx => closes_cons.mpr (.inr ⟨hne, hx⟩)

/-- Backslashes do not matter for what closes. -/
theorem closes_replicate_append {n : Nat} {cs : List Char} :
    Closes (List.replicate n '\\' ++ cs) ↔ Closes cs := by
  induction n with
  | zero => rfl
  | succ n ih => simp [List.replicate_succ, closes_cons, ih]

theorem BeginsTag.not_closes {cs : List Char} (h : BeginsTag cs) : ¬ Closes cs := by
  obtain ⟨_, after, rfl, c, body, rfl, -⟩ := h
  simp [closes_cons]

theorem beginsTag_cons_cons {c d : Char} {cs : List Char} :
    BeginsTag (c :: d :: cs) ↔ c = '[' ∧ opensTag d = true ∧ Closes cs := by
  constructor
  · rintro ⟨_, after, h, e, body, rfl, he, hopen, hclose⟩
    simp only [List.cons_append, List.append_assoc, List.cons.injEq] at h
    obtain ⟨rfl, rfl, rfl⟩ := h
    exact ⟨rfl, he, body, after, rfl, hopen, hclose⟩
  · rintro ⟨rfl, hd, body, after, rfl, hopen, hclose⟩
    exact ⟨_, after, by simp, d, body, rfl, hd, hopen, hclose⟩

theorem IsTag.getLast? {cs : List Char} (h : IsTag cs) : cs.getLast? = some ']' := by
  obtain ⟨c, body, rfl, -⟩ := h
  exact List.getLast?_concat (l := '[' :: c :: body)

theorem not_isTag_nil : ¬ IsTag [] := by
  rintro ⟨c, body, h, -⟩
  cases h

theorem not_beginsTag_nil : ¬ BeginsTag [] := by
  rintro ⟨_, after, h, c, body, rfl, -⟩
  cases h

theorem not_beginsTag_singleton (c : Char) : ¬ BeginsTag [c] := by
  rintro ⟨_, after, h, d, body, rfl, -⟩
  simp at h

theorem BeginsTag.head? {cs : List Char} (h : BeginsTag cs) : cs.head? = some '[' := by
  obtain ⟨_, after, rfl, c, body, rfl, -⟩ := h
  rfl

theorem startsTagged_slash {cs : List Char} : StartsTagged ('\\' :: cs) ↔ StartsTagged cs := by
  constructor
  · rintro ⟨n, rest, h, hrest⟩
    cases n with
    | zero =>
      have hhead := hrest.head?
      rw [← show _ = rest from h] at hhead
      cases hhead
    | succ n =>
      rw [List.replicate_succ] at h
      exact ⟨n, rest, (List.cons.inj h).2, hrest⟩
  · rintro ⟨n, rest, rfl, hrest⟩
    exact ⟨n + 1, rest, rfl, hrest⟩

theorem startsTagged_of_ne {c : Char} {cs : List Char} (hc : c ≠ '\\') :
    StartsTagged (c :: cs) ↔ BeginsTag (c :: cs) := by
  refine ⟨?_, fun h => ⟨0, _, rfl, h⟩⟩
  rintro ⟨n, rest, h, hrest⟩
  cases n with
  | zero => rwa [show c :: cs = rest from h]
  | succ n => exact absurd (List.cons.inj h).1 hc

theorem not_startsTagged_nil : ¬ StartsTagged [] := by
  rintro ⟨n, rest, h, hrest⟩
  have hnil : rest = [] := (List.append_eq_nil_iff.mp h.symm).2
  exact not_beginsTag_nil (hnil ▸ hrest)

theorem StartsTagged.not_closes {cs : List Char} (h : StartsTagged cs) : ¬ Closes cs := by
  obtain ⟨n, rest, rfl, hrest⟩ := h
  rw [closes_replicate_append]
  exact hrest.not_closes

/-- What starts tagged in front of a rest does so alone, unless the rest plays a part in it. -/
theorem startsTagged_append : ∀ {xs ys : List Char}, ¬ Closes ys → StartsTagged (xs ++ ys) →
    StartsTagged xs ∨ (∃ n, xs = List.replicate n '\\') ∧ StartsTagged ys
  | [], _, _, h => .inr ⟨⟨0, rfl⟩, h⟩
  | x :: xs, ys, hys, h => by
    by_cases hx : x = '\\'
    · subst hx
      rw [List.cons_append, startsTagged_slash] at h
      refine (startsTagged_append hys h).imp startsTagged_slash.mpr ?_
      rintro ⟨⟨n, rfl⟩, hs⟩
      exact ⟨⟨n + 1, rfl⟩, hs⟩
    · rw [List.cons_append, startsTagged_of_ne hx] at h
      rw [startsTagged_of_ne hx]
      cases xs with
      | nil =>
        cases ys with
        | nil => exact absurd h (not_beginsTag_singleton x)
        | cons y ys =>
          obtain ⟨-, hy, hc⟩ := beginsTag_cons_cons.mp h
          refine absurd (closes_cons.mpr (.inr ⟨?_, hc⟩)) hys
          rintro rfl
          exact absurd hy (by decide)
      | cons d xs =>
        obtain ⟨rfl, hd, hc⟩ := beginsTag_cons_cons.mp h
        exact .inl (beginsTag_cons_cons.mpr ⟨rfl, hd, (closes_append hc).resolve_right hys⟩)

/-! ## The scan for parts

`cutTag?` finds the tag that a text begins with, and `markupParts` the parts of `Parsed`. -/

theorem cutAtClose?_append {after : List Char} : ∀ {body : List Char}, '[' ∉ body → ']' ∉ body →
    cutAtClose? (body ++ ']' :: after) = some (body ++ [']'], after)
  | [], _, _ => by simp [cutAtClose?]
  | c :: body, hopen, hclose => by
    simp only [List.mem_cons, not_or] at hopen hclose
    have ih : cutAtClose? (body ++ ']' :: after) = some (body ++ [']'], after) :=
      cutAtClose?_append hopen.2 hclose.2
    simp [cutAtClose?, Ne.symm hopen.1, Ne.symm hclose.1, ih]

theorem exists_of_cutAtClose? : ∀ {cs tag after : List Char},
    cutAtClose? cs = some (tag, after) → ∃ body, tag = body ++ [']'] ∧ '[' ∉ body ∧ ']' ∉ body
  | c :: cs, tag, after, h => by
    simp only [cutAtClose?] at h
    split at h
    · next hc =>
      cases h
      exact ⟨[], by simp [hc]⟩
    · next hclose =>
      split at h
      · cases h
      · next hopen =>
        obtain ⟨⟨tag', after'⟩, hcut, he⟩ := Option.map_eq_some_iff.mp h
        cases he
        obtain ⟨body, rfl, ho, hc⟩ := exists_of_cutAtClose? hcut
        exact ⟨c :: body, rfl, by simp [Ne.symm hopen, ho], by simp [Ne.symm hclose, hc]⟩

theorem IsTag.cutTag? {tag : List Char} (h : IsTag tag) (after : List Char) :
    cutTag? (tag ++ after) = some (tag, after) := by
  obtain ⟨c, body, rfl, hc, hopen, hclose⟩ := h
  simp [Text.cutTag?, hc, cutAtClose?_append hopen hclose]

theorem isTag_of_cutTag? {cs tag after : List Char} (h : cutTag? cs = some (tag, after)) :
    IsTag tag := by
  unfold cutTag? at h
  split at h
  · next c rest =>
    split at h
    · next hc =>
      obtain ⟨⟨tag', after'⟩, hcut, he⟩ := Option.map_eq_some_iff.mp h
      cases he
      obtain ⟨body, rfl, hopen, hclose⟩ := exists_of_cutAtClose? hcut
      exact ⟨c, body, rfl, hc, hopen, hclose⟩
    · cases h
  · cases h

theorem replicate_leadingSlashes_append : ∀ cs : List Char,
    List.replicate (leadingSlashes cs) '\\' ++ cs.drop (leadingSlashes cs) = cs
  | [] => rfl
  | c :: cs => by
    by_cases hc : c = '\\'
    · subst hc
      simp [leadingSlashes, List.replicate_succ, replicate_leadingSlashes_append cs]
    · simp [leadingSlashes, hc]

theorem leadingSlashes_replicate_append {rest : List Char} (h : rest.head? ≠ some '\\') :
    ∀ n, leadingSlashes (List.replicate n '\\' ++ rest) = n
  | 0 => by
    cases rest with
    | nil => rfl
    | cons c rest =>
      have hc : c ≠ '\\' := fun e => h (by simp [e])
      simp [leadingSlashes, hc]
  | n + 1 => by
    simp [List.replicate_succ, leadingSlashes, leadingSlashes_replicate_append h n]

theorem leadingSlashes_tagged {n : Nat} {tag : List Char} (h : IsTag tag) (after : List Char) :
    leadingSlashes (List.replicate n '\\' ++ (tag ++ after)) = n := by
  refine leadingSlashes_replicate_append ?_ n
  rw [BeginsTag.head? ⟨tag, after, rfl, h⟩]
  decide

/-- A text and its parts: a tag takes all backslashes in front of it, and a plain character starts
none, not even behind backslashes. -/
inductive Parsed : List Char → List MarkupPart → Prop
  | nil : Parsed [] []
  | tag {n : Nat} {text after : List Char} {ps : List MarkupPart} : IsTag text →
      Parsed after ps → Parsed (List.replicate n '\\' ++ (text ++ after)) (.tag n text :: ps)
  | plain {c : Char} {cs : List Char} {ps : List MarkupPart} : ¬ StartsTagged (c :: cs) →
      Parsed cs ps → Parsed (c :: cs) (.plain c :: ps)

theorem not_startsTagged_of_cutTag? {cs : List Char}
    (h : cutTag? (cs.drop (leadingSlashes cs)) = none) : ¬ StartsTagged cs := by
  rintro ⟨n, _, rfl, tag, after, rfl, htag⟩
  rw [leadingSlashes_tagged htag, List.drop_left' List.length_replicate, htag.cutTag?] at h
  cases h

theorem cutTag?_of_not_startsTagged {cs : List Char} (h : ¬ StartsTagged cs) :
    cutTag? (cs.drop (leadingSlashes cs)) = none := by
  cases hcut : cutTag? (cs.drop (leadingSlashes cs)) with
  | none => rfl
  | some cut =>
    obtain ⟨tag, after⟩ := cut
    refine absurd ⟨leadingSlashes cs, _, (replicate_leadingSlashes_append cs).symm, tag, after, ?_,
      isTag_of_cutTag? hcut⟩ h
    exact (append_of_cutTag? hcut).1

/-- **The scan finds the parts of a text…** -/
theorem parsed_markupParts (cs : List Char) : Parsed cs (markupParts cs) := by
  fun_induction markupParts cs with
  | case1 => exact .nil
  | case2 c rest tag after h ih =>
    have hparts := replicate_leadingSlashes_append (c :: rest)
    rw [(append_of_cutTag? h).1] at hparts
    have htag := Parsed.tag (n := leadingSlashes (c :: rest)) (isTag_of_cutTag? h) ih
    rwa [hparts] at htag
  | case3 c rest h ih => exact .plain (not_startsTagged_of_cutTag? h) ih

theorem markupParts_tagged {n : Nat} {tag : List Char} (h : IsTag tag) (after : List Char) :
    markupParts (List.replicate n '\\' ++ (tag ++ after)) = .tag n tag :: markupParts after := by
  have hslashes := leadingSlashes_tagged (n := n) h after
  have hcut := h.cutTag? after
  have hdrop : (List.replicate n '\\' ++ (tag ++ after)).drop n = tag ++ after :=
    List.drop_left' List.length_replicate
  rw [← hdrop] at hcut
  cases htext : List.replicate n '\\' ++ (tag ++ after) with
  | nil =>
    have hnil := (List.append_eq_nil_iff.mp (List.append_eq_nil_iff.mp htext).2).1
    exact absurd (hnil ▸ h) not_isTag_nil
  | cons c rest =>
    rw [htext] at hcut hslashes
    rw [← hslashes] at hcut
    rw [markupParts_tag hcut, hslashes]

/-- **…and no others.** -/
theorem Parsed.markupParts_eq {cs : List Char} {ps : List MarkupPart} (h : Parsed cs ps) :
    markupParts cs = ps := by
  induction h with
  | nil => exact markupParts_nil
  | tag htag _ ih => rw [markupParts_tagged htag, ih]
  | plain hc _ ih => rw [markupParts_plain (cutTag?_of_not_startsTagged hc), ih]

theorem parsed_iff {cs : List Char} {ps : List MarkupPart} :
    Parsed cs ps ↔ markupParts cs = ps :=
  ⟨Parsed.markupParts_eq, fun h => h ▸ parsed_markupParts cs⟩

/-! ## Texts in a row -/

/-- **Texts keep their parts in a row**, unless the first ends in a backslash in front of a tag or
the second closes what the first leaves open. -/
theorem Parsed.append {cs ds : List Char} {ps qs : List MarkupPart} (h : Parsed cs ps)
    (k : Parsed ds qs) (hd : ¬ Closes ds) (hs : cs.getLast? = some '\\' → ¬ StartsTagged ds) :
    Parsed (cs ++ ds) (ps ++ qs) := by
  induction h with
  | nil => exact k
  | tag htag _ ih =>
    rw [List.append_assoc, List.append_assoc]
    exact .tag htag (ih fun he => hs (by simp [he]))
  | @plain c cs ps hc _ ih =>
    rw [List.cons_append, List.cons_append]
    refine .plain (fun hst => ?_) (ih fun he => hs (by rw [List.getLast?_cons, he]; rfl))
    rw [← List.cons_append] at hst
    obtain hst | ⟨⟨n, hn⟩, hst⟩ := startsTagged_append hd hst
    · exact hc hst
    · refine hs ?_ hst
      have hpos : n ≠ 0 := by
        rintro rfl
        cases hn
      rw [hn, List.getLast?_replicate, if_neg hpos]

end LineShell.Text
