import LineShell.Line.Grammar
import LineShell.Proofs.Line.Moves

/-!
# Proofs/Line/Reading — what a scan has read when it stands in a state

    line  =  separated words  ++  start of a word  ++  (a waiting backslash)

Every state that a scan reaches is a partial derivation of the grammar: `Reads` splits the
characters read so far into complete words (`Separated`) and the start of one more (`Part`).  Each
move extends the split by its character (`Reads.move`), so the split exists for every run
(`exists_reads_of_run`), and where a line may end it is a derivation of the line
(`Reads.derives`).
-/

namespace LineShell.Line

/-! ## Separated words

The lines behind which a new word may start. -/

/-- Complete words, each of them ended by a blank, and what they stand for. -/
inductive Separated : List Char → List (List Char) → Prop
  | blanks {gap : List Char} : Blanks gap → Separated gap []
  | cons {gap word value rest : List Char} {b : Char} {values : List (List Char)} : Blanks gap →
      Word word value → Text.isBlank b = true → Separated rest values →
      Separated (gap ++ word ++ b :: rest) (value :: values)

theorem Blanks.nil : Blanks [] := fun _ hc => absurd hc (by simp)

theorem Blanks.singleton {b : Char} (h : Text.isBlank b = true) : Blanks [b] := by
  intro c hc
  rwa [List.mem_singleton.mp hc]

theorem Separated.nil : Separated [] [] := .blanks .nil

/-- A further blank starts no word. -/
theorem Separated.append_blank {cs : List Char} {vs : List (List Char)} (h : Separated cs vs)
    {b : Char} (hb : Text.isBlank b = true) : Separated (cs ++ [b]) vs := by
  induction h with
  | blanks hg => exact .blanks (hg.append (.singleton hb))
  | cons hg hw hc _ ih =>
    rw [List.append_assoc, List.cons_append]
    exact .cons hg hw hc ih

/-- A word and a blank may follow. -/
theorem Separated.append_word {cs word value : List Char} {vs : List (List Char)}
    (h : Separated cs vs) (hw : Word word value) {b : Char} (hb : Text.isBlank b = true) :
    Separated (cs ++ word ++ [b]) (vs ++ [value]) := by
  induction h with
  | blanks hg => exact .cons hg hw hb .nil
  | cons hg hw' hc _ ih =>
    have := Separated.cons hg hw' hc ih
    simpa only [List.append_assoc, List.cons_append] using this

/-- Any line may follow. -/
theorem Separated.append_derives {cs ds : List Char} {vs ws : List (List Char)}
    (h : Separated cs vs) (hd : Derives ds ws) : Derives (cs ++ ds) (vs ++ ws) := by
  induction h with
  | blanks hg => exact hd.append_left hg
  | cons hg hw hc _ ih =>
    rw [List.append_assoc, List.cons_append]
    exact .cons hg hw hc ih

/-- **A line is separated words, with or without a word at its end.** -/
theorem Derives.separated_or_word {cs : List Char} {vs : List (List Char)} (h : Derives cs vs) :
    Separated cs vs ∨ ∃ before us word value, Separated before us ∧ Word word value ∧
      cs = before ++ word ∧ vs = us ++ [value] := by
  induction h with
  | blanks hg => exact .inl (.blanks hg)
  | last hg hw => exact .inr ⟨_, _, _, _, .blanks hg, hw, rfl, rfl⟩
  | cons hg hw hb _ ih =>
    obtain hs | ⟨before, us, word, value, hs, hw', rfl, rfl⟩ := ih
    · exact .inl (.cons hg hw hb hs)
    · exact .inr ⟨_, _, word, value, .cons hg hw hb hs, hw', by simp, rfl⟩

/-! ## The start of a word

One case for each place where a scan can stand.  The flag is `afterBlank`: outside blocks it says
that only escapes have been read, and elsewhere it no longer matters. -/

/-- What has been written of a word, and what it stands for so far. -/
inductive Part : Mode → Bool → List Char → List Char → Prop
  | escapes {cs vs : List Char} : Escapes cs vs → Part .outside true cs vs
  | ordinary {cs vs ds ws : List Char} {c : Char} : Bare cs vs → isOrdinary c = true →
      Bare ds ws → Part .outside false (cs ++ c :: ds) (vs ++ c :: ws)
  | block {q : Quote} {flag : Bool} {front vs block ws : List Char} : Escapes front vs →
      Block q block ws → Part (.inside q) flag (front ++ q.char :: block) (vs ++ ws)
  | closed {q : Quote} {flag : Bool} {front vs block ws : List Char} : Escapes front vs →
      Block q block ws → Part .closed flag (front ++ q.char :: block ++ [q.char]) (vs ++ ws)

theorem Escapes.append {cs vs ds ws : List Char} (h : Escapes cs vs) (k : Escapes ds ws) :
    Escapes (cs ++ ds) (vs ++ ws) := by
  induction h with
  | nil => exact k
  | cons hc _ ih => exact .cons hc ih

/-- An escape may follow everywhere but behind a closed block. -/
theorem Part.append_escape {m : Mode} {flag : Bool} {cs vs : List Char} (h : Part m flag cs vs)
    (hm : m ≠ .closed) {c : Char} (hc : isEscapable c = true) :
    Part m flag (cs ++ ['\\', c]) (vs ++ [c]) := by
  cases h with
  | escapes he => exact .escapes (he.append (.cons hc .nil))
  | ordinary hb ho hb' =>
    simpa only [List.append_assoc, List.cons_append] using
      Part.ordinary hb ho (hb'.append (.escape hc .nil))
  | block he hb =>
    simpa only [List.append_assoc, List.cons_append] using
      Part.block he (hb.append (.escape hc .nil))
  | closed => exact absurd rfl hm

/-- An ordinary character may follow outside blocks. -/
theorem Part.append_ordinary {flag : Bool} {cs vs : List Char} (h : Part .outside flag cs vs)
    {c : Char} (hc : isOrdinary c = true) : Part .outside false (cs ++ [c]) (vs ++ [c]) := by
  cases h with
  | escapes he => exact .ordinary he.bare hc .nil
  | ordinary hb ho hb' =>
    simpa only [List.append_assoc, List.cons_append] using
      Part.ordinary hb ho (hb'.append (.ordinary hc .nil))

/-- Inside a block, everything but its quote and the backslash may follow. -/
theorem Part.append_plain {q : Quote} {flag flag' : Bool} {cs vs : List Char}
    (h : Part (.inside q) flag cs vs) {c : Char} (hc : c ≠ '\\') (hq : c ≠ q.char) :
    Part (.inside q) flag' (cs ++ [c]) (vs ++ [c]) := by
  cases h with
  | block he hb =>
    simpa only [List.append_assoc, List.cons_append] using
      Part.block he (hb.append (.plain hc hq .nil))

/-- A block may open behind nothing but escapes… -/
theorem Part.append_open {flag : Bool} {cs vs : List Char} (h : Part .outside true cs vs)
    (q : Quote) : Part (.inside q) flag (cs ++ [q.char]) vs := by
  cases h with
  | escapes he => simpa only [List.append_nil] using Part.block he (.nil (q := q))

/-- …and its quote closes it. -/
theorem Part.append_close {q : Quote} {flag : Bool} {cs vs : List Char}
    (h : Part (.inside q) flag cs vs) : Part .closed flag (cs ++ [q.char]) vs := by
  cases h with
  | block he hb => exact .closed he hb

/-- An open block has been written. -/
theorem Part.ne_nil_of_inside {q : Quote} {flag : Bool} {cs vs : List Char}
    (h : Part (.inside q) flag cs vs) : cs ≠ [] := by
  cases h with
  | block => simp

/-- A start that may end is a word. -/
theorem Part.word {m : Mode} {flag : Bool} {cs vs : List Char} (h : Part m flag cs vs)
    (hm : ∀ q, m ≠ .inside q) (hne : cs ≠ []) : Word cs vs := by
  cases h with
  | escapes he => exact .bare hne he.bare
  | ordinary hb ho hb' => exact .bare hne (hb.append (.ordinary ho hb'))
  | @block q => exact absurd rfl (hm q)
  | @closed q _ _ _ _ _ he hb => exact .quoted q he hb

namespace Scan

/-- The characters of the word under construction. -/
def text (s : Scan) : List Char := (s.current.getD "").toList

/-- The characters of each finished word. -/
def values (s : Scan) : List (List Char) := s.finished.toList.map String.toList

/-- The backslash that waits for the character it escapes. -/
def waiting (s : Scan) : List Char := if s.escaping then ['\\'] else []

theorem text_push (s : Scan) (c : Char) : (s.push c).text = s.text ++ [c] :=
  String.toList_push c

theorem values_separate_of_none {s : Scan} (h : s.current = none) :
    s.separate.values = s.values := by
  simp only [values, separate, toList_tokens, h, Option.toList_none, List.append_nil]

theorem values_separate_of_ne_none {s : Scan} (h : s.current ≠ none) :
    s.separate.values = s.values ++ [s.text] := by
  obtain ⟨word, hw⟩ := Option.ne_none_iff_exists'.mp h
  simp only [values, text, separate, toList_tokens, hw, Option.toList_some, List.map_append,
    List.map_cons, List.map_nil, Option.getD_some]

/-! ## What a state has read -/

/-- The state has read `before`, which is separated, then the start `word` of a word, and then
perhaps a backslash. -/
structure Reads (s : Scan) (before word : List Char) : Prop where
  separated : Separated before s.values
  part : Part s.mode s.afterBlank word s.text
  current : s.current = none ↔ word = []
  unclosed : s.escaping = true → s.mode ≠ .closed

theorem reads_start : ({} : Scan).Reads [] [] where
  separated := .nil
  part := .escapes .nil
  current := by simp
  unclosed := by simp

/-- A finished word leaves the state that a fresh scan of the rest starts from. -/
theorem reads_separate {s : Scan} {before : List Char} (h : Separated before s.separate.values) :
    s.separate.Reads before [] where
  separated := h
  part := .escapes .nil
  current := by simp [separate]
  unclosed := by simp [separate]

theorem Reads.part_of_mode {s : Scan} {before word : List Char} (h : s.Reads before word)
    {m : Mode} (hm : s.mode = m) : Part m s.afterBlank word s.text := hm ▸ h.part

/-- A character that joins the word, with no backslash before or behind it. -/
theorem Reads.extend {s t : Scan} {before word : List Char} (h : s.Reads before word) {c : Char}
    (hs : s.escaping = false) (ht : t.escaping = false) (hfinished : t.finished = s.finished)
    (hcurrent : t.current ≠ none) (hpart : Part t.mode t.afterBlank (word ++ [c]) t.text) :
    ∃ before' word', t.Reads before' word' ∧
      before' ++ word' ++ t.waiting = before ++ word ++ s.waiting ++ [c] := by
  refine ⟨before, word ++ [c], ⟨?_, hpart, by simp [hcurrent], by simp [ht]⟩, ?_⟩
  · rw [values, hfinished]
    exact h.separated
  · simp [waiting, hs, ht]

/-- **Every move extends what has been read by its character.** -/
theorem Reads.move {s t : Scan} {c : Char} {before word : List Char} (h : s.Reads before word)
    (hm : Move s c t) : ∃ before' word', t.Reads before' word' ∧
      before' ++ word' ++ t.waiting = before ++ word ++ s.waiting ++ [c] := by
  cases hm with
  | escaped hs he hc =>
    refine ⟨before, word ++ ['\\', c], ⟨h.separated, ?_, by simp [push], by simp⟩, ?_⟩
    · exact text_push s c ▸ h.part.append_escape hs hc
    · simp [waiting, he]
  | separated hs hb =>
    have he : s.escaping = false := by
      rcases hs with hs | hs
      · exact Bool.eq_false_iff.mpr fun he => h.unclosed he hs
      · exact hs.2
    refine ⟨before ++ word ++ [c], [], reads_separate ?_, by simp [waiting, he, separate]⟩
    by_cases hw : word = []
    · rw [values_separate_of_none (h.current.mpr hw), hw, List.append_nil]
      exact h.separated.append_blank hb
    · rw [values_separate_of_ne_none (mt h.current.mp hw)]
      refine h.separated.append_word (h.part.word ?_ hw) hb
      intro q hq
      rcases hs with hs | hs
      · exact absurd (hs.symm.trans hq) (by simp)
      · exact absurd (hs.1.symm.trans hq) (by simp)
  | backslash hs he =>
    exact ⟨before, word, ⟨h.separated, h.part, h.current, fun _ => hs⟩, by simp [waiting, he]⟩
  | @opened q hs he ha =>
    have hp : Part .outside true word s.text := ha ▸ h.part_of_mode hs
    exact h.extend he he rfl (by simp [openQuote]) (hp.append_open q)
  | @closed q hs he =>
    have hp := h.part_of_mode hs
    exact h.extend he he rfl (mt h.current.mp hp.ne_nil_of_inside) hp.append_close
  | @otherQuote p q hs he hq =>
    refine h.extend he he rfl (by simp [push]) ?_
    change Part s.mode s.afterBlank (word ++ [p.char]) (s.push p.char).text
    rw [text_push, hs]
    exact (h.part_of_mode hs).append_plain (Quote.char_ne_backslash p)
      fun hpq => hq (Quote.char_injective hpq)
  | ordinary hs he hc =>
    refine h.extend he he rfl (by simp [pushOrdinary, push]) ?_
    change Part s.mode false (word ++ [c]) (s.push c).text
    rw [text_push, hs]
    exact (h.part_of_mode hs).append_ordinary hc
  | @plain q _ hs he hc =>
    refine h.extend he he rfl (by simp [pushOrdinary, push]) ?_
    change Part s.mode false (word ++ [c]) (s.push c).text
    rw [text_push, hs]
    refine (h.part_of_mode hs).append_plain (isEscapable_eq_false_iff.mp hc).2 ?_
    rintro rfl
    rw [isEscapable_quote] at hc
    cases hc

/-- **What a scan has read when it reaches a state**: separated words, the start of a word, and
the backslash that waits. -/
theorem exists_reads_of_run {cs : List Char} {s : Scan} (h : ({} : Scan).run cs = .ok s) :
    ∃ before word, s.Reads before word ∧ cs = before ++ word ++ s.waiting := by
  refine run_induction (P := fun read t => ∃ before word, t.Reads before word ∧
    read = before ++ word ++ t.waiting) ?_ cs [] ⟨[], [], reads_start, rfl⟩ h
  rintro _ t c u ⟨before, word, hr, rfl⟩ hm
  obtain ⟨before', word', hr', heq⟩ := hr.move hm
  exact ⟨before', word', hr', heq.symm⟩

/-- The state at the end of a line that may end there derives the line. -/
theorem Reads.derives {s : Scan} {before word : List Char} (h : s.Reads before word)
    (hs : s.AtRest) : Derives (before ++ word) s.separate.values := by
  by_cases hw : word = []
  · rw [values_separate_of_none (h.current.mpr hw), hw]
    exact List.append_nil s.values ▸ h.separated.append_derives (.blanks .nil)
  · rw [values_separate_of_ne_none (mt h.current.mp hw)]
    exact h.separated.append_derives (.last .nil (h.part.word hs.2 hw))

end Scan

end LineShell.Line
