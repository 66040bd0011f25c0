import Mathlib.Data.List.TakeDrop
import Mathlib.Data.List.TakeWhile
import LineShell.Config.Settings
import LineShell.Config.Template.Writing

/-!
# Proofs/Config/Prompt — a prompt shows what its author wrote

    text, field, text ──write──▸ template ──pieces──▸ c, c, field, c ──fill──▸ text, value, text

A template is cut into pieces once, before any value is looked up.  Doubled braces come back one by
one whatever stands behind them, and a name in braces comes back as its field if nothing in it has a
meaning of its own (`PlainName.pieces_append`).  So a template that is written shows its texts and
the values of its fields, and a value is never cut into pieces itself (`fillPieces_write`).  The
three fields of a prompt have such names (`formatPrompt_write`).
-/

namespace LineShell.Template

/-! ## Names that stand for themselves -/

/-- The characters that mean something in the name of a field: they end it, or they start an index
or an attribute. -/
def nameMarks : List Char := ['\x7b', '\x7d', ':', '!', '[', '.']

/-- The name denotes the field that it spells: it is no position, and nothing in it is a mark. -/
structure PlainName (cs : List Char) : Prop where
  unmarked : ∀ c ∈ cs, c ∉ nameMarks
  spelled : ∃ c rest, cs = c :: rest ∧ Text.digitValue? c = none

instance (cs : List Char) : Decidable (∀ c ∈ cs, c ∉ nameMarks) :=
  List.decidableBAll (· ∉ nameMarks) cs

theorem readPath_unmarked : ∀ {cs : List Char}, (∀ c ∈ cs, c ∉ nameMarks) → ∀ rest,
    readPath false (cs ++ '\x7d' :: rest) = .ok (cs, '\x7d', rest)
  | [], _, rest => by simp [readPath]
  | c :: cs, h, rest => by
    have ih := readPath_unmarked (fun d hd => h d (List.mem_cons_of_mem c hd)) rest
    have hc := h c List.mem_cons_self
    simp only [nameMarks, List.mem_cons, List.not_mem_nil, or_false, not_or] at hc
    obtain ⟨hopen, hclose, hcolon, hbang, hindex, -⟩ := hc
    have hnext : (c == '[') = false := beq_eq_false_iff_ne.mpr hindex
    rw [List.cons_append, readPath, if_neg hopen, if_neg (by simp [hclose, hcolon, hbang]), hnext,
      ih]
    rfl

theorem pieces_field {cs after : List Char} {f : Field} (hopen : cs.head? ≠ some '\x7b')
    (h : readField cs = .ok (f, after)) : pieces ('\x7b' :: cs) = .field f :: pieces after := by
  cases cs with
  | nil => cases h
  | cons c cs =>
    have hc : c ≠ '\x7b' := fun he => hopen (congrArg some he)
    rw [pieces]
    · split
      · next h' =>
        rw [h] at h'
        cases h'
        rfl
      · next h' =>
        rw [h] at h'
        cases h'
    · rintro rest he
      exact hc (List.cons.inj he).1
    · simp

namespace PlainName

variable {cs : List Char} (h : PlainName cs)

include h

theorem readField_append (rest : List Char) :
    readField (cs ++ '\x7d' :: rest) = .ok ({ path := cs }, rest) := by
  rw [readField, readPath_unmarked h.unmarked]
  rfl

/-- **A name in braces is cut off as its field**, whatever stands behind it. -/
theorem pieces_append (rest : List Char) :
    pieces ('\x7b' :: (cs ++ '\x7d' :: rest)) = .field { path := cs } :: pieces rest := by
  refine pieces_field ?_ (h.readField_append rest)
  obtain ⟨c, tail, rfl, -⟩ := h.spelled
  rintro ⟨⟩
  exact h.unmarked '\x7b' List.mem_cons_self (by decide)

theorem splitName_eq : splitName cs = (cs, []) := by
  have hname : ∀ c ∈ cs, (c != '.' && c != '[') = true := by
    intro c hc
    have hmark := h.unmarked c hc
    simp only [nameMarks, List.mem_cons, List.not_mem_nil, or_false, not_or] at hmark
    simp [hmark]
  rw [splitName, List.span_eq_takeWhile_dropWhile, List.takeWhile_eq_self_iff.mpr hname,
    List.dropWhile_eq_nil_iff.mpr hname]

theorem lookUp_eq {values : Values} {value : String}
    (hvalue : values.lookup (.ofList cs) = some value) :
    lookUp values cs = .ok value.toList := by
  obtain ⟨c, tail, rfl, hdigit⟩ := h.spelled
  simp only [lookUp, wholeNumber?, digits, hdigit, hvalue]
  rfl

/-- **The field shows the value of its name as it is.** -/
theorem fillPiece_eq {values : Values} {value : String}
    (hvalue : values.lookup (.ofList cs) = some value)
    (expand : List Char → Except Fault (List Char)) :
    fillPiece expand values (.field { path := cs }) = .ok value.toList := by
  simp only [fillPiece, fillField, h.splitName_eq, h.lookUp_eq hvalue]
  rfl

end PlainName

/-! ## Written templates

What pieces show one after the other is put together, so each segment can be looked at alone. -/

section Filling

variable {expand : List Char → Except Fault (List Char)} {values : Values}

theorem fillPieces_append {qs : List Piece} {ys : List Char}
    (hq : fillPieces expand values qs = .ok ys) : ∀ {ps : List Piece} {xs : List Char},
      fillPieces expand values ps = .ok xs → fillPieces expand values (ps ++ qs) = .ok (xs ++ ys)
  | [], xs, hp => by
    obtain rfl : [] = xs := Except.ok.inj hp
    exact hq
  | piece :: ps, xs, hp => by
    rw [fillPieces] at hp
    rw [List.cons_append, fillPieces]
    cases hpiece : fillPiece expand values piece with
    | error fault =>
      rw [hpiece] at hp
      cases hp
    | ok shown =>
      cases hrest : fillPieces expand values ps with
      | error fault =>
        rw [hpiece, hrest] at hp
        cases hp
      | ok zs =>
        rw [hpiece, hrest] at hp
        obtain rfl : shown ++ zs = xs := Except.ok.inj hp
        rw [fillPieces_append hq hrest, List.append_assoc]
        rfl

theorem fillPieces_chars : ∀ cs : List Char,
    fillPieces expand values (cs.map Piece.char) = .ok cs
  | [] => rfl
  | c :: cs => by
    rw [List.map_cons, fillPieces, fillPieces_chars cs]
    rfl

/-- The segment is text, or a field that has a value under a name that stands for itself. -/
inductive Fillable (values : Values) : Segment → Prop
  | text (cs : List Char) : Fillable values (.text cs)
  | field {name value : String} : PlainName name.toList → values.lookup name = some value →
      Fillable values (.field name)

/-- **A written segment shows what it says**, whatever stands behind it. -/
theorem Fillable.fillPieces_append {segment : Segment} (h : Fillable values segment)
    {rest shown : List Char} (hrest : fillPieces expand values (pieces rest) = .ok shown) :
    fillPieces expand values (pieces (segment.write ++ rest)) =
      .ok (segment.shown values ++ shown) := by
  cases h with
  | text cs =>
    rw [Segment.write, pieces_doubleBraces_append]
    exact Template.fillPieces_append hrest (fillPieces_chars cs)
  | @field name value hname hvalue =>
    have hpiece : fillPiece expand values (.field { path := name.toList }) = .ok value.toList :=
      hname.fillPiece_eq (by rwa [String.ofList_toList]) expand
    have hwrite : (Segment.field name).write ++ rest =
        '\x7b' :: (name.toList ++ '\x7d' :: rest) := by simp [Segment.write]
    rw [hwrite, hname.pieces_append, fillPieces, hpiece, hrest, Segment.shown, hvalue]
    rfl

theorem fillPieces_write : ∀ {segments : List Segment}, (∀ s ∈ segments, Fillable values s) →
    fillPieces expand values (pieces (segments.flatMap Segment.write)) =
      .ok (segments.flatMap (Segment.shown values))
  | [], _ => by
    rw [List.flatMap_nil, pieces_nil]
    rfl
  | segment :: rest, h => by
    have hrest := fillPieces_write fun s hs => h s (List.mem_cons_of_mem segment hs)
    exact (h segment List.mem_cons_self).fillPieces_append hrest

/-- **A template that is written shows what its segments say.** -/
theorem fill_write {segments : List Segment} (h : ∀ s ∈ segments, Fillable values s) :
    fill values (write segments) = .ok (shown values segments) := by
  rw [fill, expand, write, String.toList_ofList, fillPieces_write h]
  rfl

end Filling

end LineShell.Template

namespace LineShell.Settings

open Template (Segment)

/-! ## Prompts -/

/-- The settings that a prompt can show. -/
inductive PromptField where
  | user
  | host
  | name
  deriving DecidableEq, Repr

namespace PromptField

/-- The name of the field in a template. -/
def key : PromptField → String
  | user => "user"
  | host => "host"
  | name => "name"

/-- The setting that the field shows. -/
def value (s : Settings) : PromptField → String
  | user => s.user
  | host => s.host
  | name => s.name

theorem plainName_key : ∀ f : PromptField, Template.PlainName f.key.toList
  | user => ⟨by decide, 'u', "ser".toList, by decide, by decide⟩
  | host => ⟨by decide, 'h', "ost".toList, by decide, by decide⟩
  | name => ⟨by decide, 'n', "ame".toList, by decide, by decide⟩

end PromptField

/-- A part of a prompt as its author thinks of it. -/
inductive PromptPart where
  | text (s : String)
  | field (f : PromptField)
  deriving DecidableEq, Repr

namespace PromptPart

/-- The part as a segment of a template. -/
def segment : PromptPart → Segment
  | text s => .text s.toList
  | field f => .field f.key

/-- What the part shows: a text is shown as it is, and so is a setting. -/
def shown (s : Settings) : PromptPart → String
  | text t => t
  | field f => f.value s

end PromptPart

/-- The settings by the names of their fields. -/
def promptValues (s : Settings) : Template.Values :=
  [("user", s.user), ("host", s.host), ("name", s.name)]

theorem lookup_promptValues (s : Settings) : ∀ f : PromptField,
    s.promptValues.lookup f.key = some (f.value s)
  | .user | .host | .name => rfl

theorem PromptPart.fillable (s : Settings) : ∀ part : PromptPart,
    Template.Fillable s.promptValues part.segment
  | .text t => .text t.toList
  | .field f => .field f.plainName_key (lookup_promptValues s f)

theorem PromptPart.shown_segment (s : Settings) : ∀ part : PromptPart,
    part.segment.shown s.promptValues = (part.shown s).toList
  | .text _ => rfl
  | .field f => by rw [PromptPart.segment, Segment.shown, lookup_promptValues]; rfl

/-- **A prompt shows what its author wrote.**  Texts and fields that are written as a prompt, with
the braces of the texts doubled and those around the fields not, are shown one after the other: each
text as it is, and each field as the setting that it names, whatever characters these hold. -/
theorem formatPrompt_write (s : Settings) (parts : List PromptPart) :
    ({ s with prompt := Template.write (parts.map PromptPart.segment) } : Settings).formatPrompt =
      .ok (String.join (parts.map (PromptPart.shown s))) := by
  have hfill : Template.fill s.promptValues (Template.write (parts.map PromptPart.segment)) =
      .ok (Template.shown s.promptValues (parts.map PromptPart.segment)) := by
    refine Template.fill_write fun segment hmem => ?_
    obtain ⟨part, -, rfl⟩ := List.mem_map.mp hmem
    exact part.fillable s
  have hshown : Template.shown s.promptValues (parts.map PromptPart.segment) =
      String.join (parts.map (PromptPart.shown s)) := by
    rw [← String.toList_inj, Template.shown, String.toList_ofList, String.toList_join]
    simp only [List.flatMap_map, PromptPart.shown_segment]
  exact hfill.trans (congrArg Except.ok hshown)

end LineShell.Settings
