/-!
# Text/Markup — style tags in console text

A tag is `[`, one of `a`–`z`, `#`, `/` and `@`, then any characters but `[` up to the nearest `]`.
Rendering drops a tag; an odd number of backslashes in front of it makes it literal, and halves.
`escape` prepares a text so that none of its tags is taken for a style tag.
-/

namespace LineShell.Text

/-- The character may follow the bracket that opens a tag. -/
def opensTag (c : Char) : Bool := ('a' ≤ c && c ≤ 'z') || c == '#' || c == '/' || c == '@'

/-- Cuts a text after its first `]`, which no `[` may precede. -/
def cutAtClose? : List Char → Option (List Char × List Char)
  | [] => none
  | c :: rest =>
      if c = ']' then some ([c], rest)
      else if c = '[' then none
      else (cutAtClose? rest).map fun (body, after) => (c :: body, after)

/-- Cuts a text after the tag that it starts with, if it starts with one. -/
def cutTag? : List Char → Option (List Char × List Char)
  | '[' :: c :: rest =>
      if opensTag c then (cutAtClose? rest).map fun (body, after) => ('[' :: c :: body, after)
      else none
  | _ => none

theorem append_of_cutAtClose? : ∀ {cs body after : List Char},
    cutAtClose? cs = some (body, after) → cs = body ++ after
  | c :: rest, body, after, h => by
      simp only [cutAtClose?] at h
      split at h
      · cases h; rfl
      · split at h
        · cases h
        · obtain ⟨⟨b, a⟩, hb, he⟩ := Option.map_eq_some_iff.mp h
          cases he
          rw [append_of_cutAtClose? hb]; rfl

theorem append_of_cutTag? {cs tag after : List Char} (h : cutTag? cs = some (tag, after)) :
    cs = tag ++ after ∧ 2 ≤ tag.length := by
  unfold cutTag? at h
  split at h
  · split at h
    · obtain ⟨⟨b, a⟩, hb, he⟩ := Option.map_eq_some_iff.mp h
      cases he
      rw [append_of_cutAtClose? hb]; simp
    · cases h
  · cases h

/-- The number of backslashes at the start of a text. -/
def leadingSlashes : List Char → Nat
  | '\\' :: rest => leadingSlashes rest + 1
  | _ => 0

/-- A part of console text: a plain character, or a tag with the backslashes in front of it. -/
inductive MarkupPart where
  | plain (c : Char)
  | tag (slashes : Nat) (text : List Char)
  deriving DecidableEq, Repr

/-- The parts of a console text. -/
def markupParts (cs : List Char) : List MarkupPart :=
  match cs with
  | [] => []
  | c :: rest =>
      match _h : cutTag? ((c :: rest).drop (leadingSlashes (c :: rest))) with
      | some (tag, after) => .tag (leadingSlashes (c :: rest)) tag :: markupParts after
      | none => .plain c :: markupParts rest
termination_by cs.length
decreasing_by
  · obtain ⟨he, hl⟩ := append_of_cutTag? _h
    have := congrArg List.length he
    simp only [List.length_drop, List.length_cons, List.length_append] at this ⊢
    omega
  · simp

theorem markupParts_nil : markupParts [] = [] := by rw [markupParts]

theorem markupParts_tag {c : Char} {rest tag after : List Char}
    (h : cutTag? ((c :: rest).drop (leadingSlashes (c :: rest))) = some (tag, after)) :
    markupParts (c :: rest) = .tag (leadingSlashes (c :: rest)) tag :: markupParts after := by
  rw [markupParts]
  split
  · next h' => rw [h] at h'; cases h'; rfl
  · next h' => rw [h] at h'; cases h'

theorem markupParts_plain {c : Char} {rest : List Char}
    (h : cutTag? ((c :: rest).drop (leadingSlashes (c :: rest))) = none) :
    markupParts (c :: rest) = .plain c :: markupParts rest := by
  rw [markupParts]
  split
  · next h' => rw [h] at h'; cases h'
  · rfl

namespace MarkupPart

/-- The part with its tag protected from being taken for a style tag. -/
def escape : MarkupPart → List Char
  | plain c => [c]
  | tag n text => List.replicate (2 * n + 1) '\\' ++ text

/-- What is shown of a tag: half of the backslashes, and the tag itself if one is left over. -/
def shownTag (n : Nat) (text : List Char) : List Char :=
  List.replicate (n / 2) '\\' ++ if n % 2 = 1 then text else []

/-- What is shown of parts in a row; between tags, a backslash before a bracket is dropped. -/
def shown : List MarkupPart → List Char
  | [] => []
  | tag n text :: rest => shownTag n text ++ shown rest
  | plain '\\' :: plain '[' :: rest => '[' :: shown rest
  | plain c :: rest => c :: shown rest

end MarkupPart

/-- The text ends in exactly one backslash. -/
def endsInOneSlash (cs : List Char) : Bool := leadingSlashes cs.reverse == 1

/-- The text with its tags protected; a single backslash at the end is doubled. -/
def escapeMarkup (cs : List Char) : List Char :=
  let escaped := (markupParts cs).flatMap MarkupPart.escape
  if endsInOneSlash escaped then escaped ++ ['\\'] else escaped

/-- What is shown of a console text. -/
def renderMarkup (cs : List Char) : List Char := MarkupPart.shown (markupParts cs)

end LineShell.Text
