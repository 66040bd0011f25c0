import Mathlib.Algebra.Ring.Parity
import Mathlib.Data.List.DropRight
import LineShell.Proofs.Line.Words

/-!
# Proofs/Line/Viability — where a line dies, and of what

    start          viable: some continuation can be read
    start ++ c     dead: none can

A line that is viable can only be refused at its end, for what is still open there.  Any other line
has a shortest dead beginning, and how that beginning ends decides the fault (`Cause`): whatever
follows, the fault stays (`fault_of_tokenize`).

The engine is `viable_iff_run`: a beginning is viable exactly when the scan gets through it, since
a waiting backslash and an open block can always be closed.
-/

namespace LineShell.Line

/-! ## Viable lines and dead ones -/

/-- Some continuation of the line can be read. -/
def Viable (line : String) : Prop := ∃ more words, tokenize (line ++ more) = .ok words

/-- `start` and `c` make up the shortest beginning of the line that has no readable
continuation. -/
structure DiesAt (line start : String) (c : Char) : Prop where
  beginning : ∃ rest, line = start.push c ++ rest
  dead : ¬ Viable (start.push c)
  shortest : ∀ first rest, start = first ++ rest → Viable first

/-! ## How a beginning can end -/

/-- The number of backslashes at the end of the text. -/
def trailingBackslashes (cs : List Char) : Nat := (cs.rtakeWhile (· == '\\')).length

/-- The last character is the quote that closes a block. -/
def EndsInClosingQuote (cs : List Char) : Prop :=
  ∃ (q : Quote) (before front block vs ws : List Char) (values : List (List Char)),
    Separated before values ∧ Escapes front vs ∧ Block q block ws ∧
      cs = before ++ (front ++ q.char :: block ++ [q.char])

/-- The last word is not quoted and holds an ordinary character besides its escapes. -/
def EndsInOrdinaryWord (cs : List Char) : Prop :=
  ∃ (c : Char) (before front rest vs ws : List Char) (values : List (List Char)),
    Separated before values ∧ Bare front vs ∧ isOrdinary c = true ∧ Bare rest ws ∧
      cs = before ++ (front ++ c :: rest)

/-- Why a line that dies at `c` behind `start` is refused. -/
inductive Cause (start : List Char) (c : Char) : Fault → Prop
  | illegalEscape : Odd (trailingBackslashes start) → isEscapable c = false →
      Cause start c (.illegalEscape c)
  | missingBlank : ¬ Odd (trailingBackslashes start) → EndsInClosingQuote start →
      Text.isBlank c = false → Cause start c .missingBlank
  | prematureQuote (q : Quote) : ¬ Odd (trailingBackslashes start) →
      ¬ EndsInClosingQuote start → c = q.char → EndsInOrdinaryWord start →
      Cause start c .prematureQuote

namespace Scan

/-! ## The waiting backslash, by parity -/

/-- A backslash waits behind a move exactly when it was read and none was waiting before. -/
theorem Move.escaping {s t : Scan} {c : Char} (h : Move s c t) :
    t.escaping = (c == '\\' && !s.escaping) := by
  cases h with
  | escaped _ he _ => simp [he]
  | separated _ hb =>
    have hc : c ≠ '\\' := (isEscapable_eq_false_iff.mp (isEscapable_of_isBlank hb)).2
    simp [separate, hc]
  | backslash _ he => simp [he]
  | opened _ he _ => simp [openQuote, he, Quote.char_ne_backslash]
  | closed _ he => simp [he, Quote.char_ne_backslash]
  | otherQuote _ he _ => simp [push, he, Quote.char_ne_backslash]
  | ordinary _ he hc =>
    simp only [isOrdinary, Bool.and_eq_true, Bool.not_eq_true'] at hc
    simp [pushOrdinary, push, he, (isEscapable_eq_false_iff.mp hc.2).2]
  | plain _ he hc => simp [pushOrdinary, push, he, (isEscapable_eq_false_iff.mp hc).2]

theorem odd_trailingBackslashes_concat (cs : List Char) (c : Char) :
    Odd (trailingBackslashes (cs ++ [c])) ↔ c = '\\' ∧ ¬ Odd (trailingBackslashes cs) := by
  by_cases hc : c = '\\'
  · simp [trailingBackslashes, hc, Nat.odd_add_one]
  · simp [trailingBackslashes, hc]

/-- **A backslash waits exactly behind an odd number of them.** -/
theorem escaping_iff_odd {cs : List Char} {s : Scan} (h : ({} : Scan).run cs = .ok s) :
    s.escaping = true ↔ Odd (trailingBackslashes cs) := by
  refine run_induction (P := fun read t => t.escaping = true ↔ Odd (trailingBackslashes read))
    ?_ cs [] (by simp [trailingBackslashes]) h
  intro read t c u ih hm
  rw [hm.escaping, odd_trailingBackslashes_concat, ← ih]
  simp

/-! ## Whatever is open can be closed -/

/-- A waiting backslash can be resolved where it stands. -/
theorem Reads.resolve {s : Scan} {before word : List Char} (h : s.Reads before word) :
    ∃ more t, s.run more = .ok t ∧ t.escaping = false := by
  cases he : s.escaping with
  | false => exact ⟨[], s, rfl, he⟩
  | true =>
    have hmove : Move s '\\' { s.push '\\' with escaping := false } :=
      .escaped (h.unclosed he) he (by decide)
    exact ⟨['\\'], _, (run_singleton s '\\').trans hmove.step, rfl⟩

/-- …and then an open block can be closed. -/
theorem Reads.close {s : Scan} {before word : List Char} (h : s.Reads before word) :
    ∃ more t, s.run more = .ok t ∧ t.AtRest := by
  obtain ⟨more, t, ht, he⟩ := h.resolve
  by_cases hr : t.AtRest
  · exact ⟨more, t, ht, hr⟩
  · obtain ⟨q, hq⟩ : ∃ q, t.mode = .inside q := by
      by_contra hn
      exact hr ⟨he, fun q hq => hn ⟨q, hq⟩⟩
    refine ⟨more ++ [q.char], { t with mode := .closed }, ?_, he, by simp⟩
    rw [run_append_of_ok ht, run_singleton, (Move.closed hq he).step]

/-! ## What the end of a line reports -/

theorem finish_of_escaping {s : Scan} (h : s.escaping = true) :
    s.finish = .error .hangingEscape := by simp [finish, h]

theorem finish_of_inside {s : Scan} {q : Quote} (he : s.escaping = false)
    (hm : s.mode = .inside q) : s.finish = .error .unterminatedQuote := by simp [finish, he, hm]

/-- **The end of a line refuses it only for what is open.** -/
theorem finish_cases (s : Scan) : (∃ words, s.finish = .ok words) ∨
    s.escaping = true ∧ s.finish = .error .hangingEscape ∨
      s.escaping = false ∧ s.finish = .error .unterminatedQuote := by
  cases he : s.escaping with
  | true => exact .inr (.inl ⟨rfl, finish_of_escaping he⟩)
  | false =>
    cases hm : s.mode with
    | inside q => exact .inr (.inr ⟨rfl, finish_of_inside he hm⟩)
    | outside => exact .inl ⟨_, finish_eq_ok_iff.mpr ⟨⟨he, by simp [hm]⟩, rfl⟩⟩
    | closed => exact .inl ⟨_, finish_eq_ok_iff.mpr ⟨⟨he, by simp [hm]⟩, rfl⟩⟩

end Scan

/-! ## A beginning is viable exactly when the scan gets through it -/

theorem viable_iff_run {line : String} :
    Viable line ↔ ∃ s, ({} : Scan).run line.toList = .ok s := by
  constructor
  · rintro ⟨more, words, h⟩
    cases hrun : ({} : Scan).run line.toList with
    | ok s => exact ⟨s, rfl⟩
    | error fault =>
      have hmore := Scan.run_append_of_error hrun more.toList
      rw [← String.toList_append] at hmore
      rw [tokenize_of_run_error hmore] at h
      cases h
  · rintro ⟨s, hs⟩
    obtain ⟨before, word, hreads, -⟩ := Scan.exists_reads_of_run hs
    obtain ⟨more, t, ht, hr⟩ := hreads.close
    refine ⟨.ofList more, t.tokens.toList, ?_⟩
    have hrun : ({} : Scan).run (line ++ .ofList more).toList = .ok t := by
      rw [String.toList_append, String.toList_ofList, Scan.run_append_of_ok hs, ht]
    rw [tokenize_of_run hrun]
    exact Scan.finish_eq_ok_iff.mpr ⟨hr, rfl⟩

/-- A beginning of a viable line is viable. -/
theorem Viable.of_append {first rest : String} (h : Viable (first ++ rest)) : Viable first := by
  obtain ⟨more, words, h⟩ := h
  exact ⟨rest ++ more, words, by rwa [← String.append_assoc]⟩

/-- **A line that is not viable dies at some character.** -/
theorem exists_diesAt {line : String} (h : ¬ Viable line) : ∃ start c, DiesAt line start c := by
  cases hrun : ({} : Scan).run line.toList with
  | ok s => exact absurd (viable_iff_run.mpr ⟨s, hrun⟩) h
  | error fault =>
    obtain ⟨xs, c, ys, t, hline, hxs, hc⟩ := Scan.exists_refusal_of_run hrun
    have hstart : ({} : Scan).run (String.ofList xs).toList = .ok t := by
      rwa [String.toList_ofList]
    refine ⟨.ofList xs, c, ⟨.ofList ys, ?_⟩, ?_, ?_⟩
    · rw [← String.toList_inj, hline]
      simp
    · rw [viable_iff_run]
      rintro ⟨u, hu⟩
      rw [String.toList_push, Scan.run_append_of_ok hstart, Scan.run_singleton, hc.step] at hu
      cases hu
    · intro first rest hsplit
      have hv : Viable (.ofList xs) := viable_iff_run.mpr ⟨t, hstart⟩
      rw [hsplit] at hv
      exact hv.of_append

/-! ## The fault of a dead beginning -/

/-- A scan that has read a closing quote stands behind a closed block. -/
theorem mode_of_endsInClosingQuote {cs : List Char} {s : Scan}
    (h : ({} : Scan).run cs = .ok s) (hc : EndsInClosingQuote cs) : s.mode = .closed := by
  obtain ⟨q, before, front, block, vs, ws, values, hb, hf, hblock, rfl⟩ := hc
  obtain ⟨t, ht, hm, -⟩ := Scan.run_quoted hf hblock (values.map String.ofList).toArray
  rw [Scan.run_append_of_ok (Scan.run_start_separated hb), ht] at h
  obtain rfl : t = s := Except.ok.inj h
  exact hm

/-- **How a dead beginning ends decides the fault.** -/
theorem Scan.Refusal.cause {cs : List Char} {s : Scan} {c : Char} {fault : Fault}
    (h : Scan.Refusal s c fault) (hs : ({} : Scan).run cs = .ok s) : Cause cs c fault := by
  obtain ⟨before, word, hreads, hcs⟩ := Scan.exists_reads_of_run hs
  have hodd := Scan.escaping_iff_odd hs
  have hp := hreads.part
  cases h with
  | illegalEscape hm he hc => exact .illegalEscape (hodd.mp he) hc
  | missingBlank hm hc =>
    have he : s.escaping = false := Bool.eq_false_iff.mpr fun he => hreads.unclosed he hm
    refine .missingBlank (mt hodd.mpr (by simp [he])) ?_ hc
    rw [hm] at hp
    generalize s.text = text at hp
    cases hp with
    | closed hf hb =>
      exact ⟨_, before, _, _, _, _, _, hreads.separated, hf, hb, by
        simpa [Scan.waiting, he] using hcs⟩
  | @prematureQuote q hm he ha =>
    refine .prematureQuote q (mt hodd.mpr (by simp [he])) ?_ rfl ?_
    · intro hclosing
      exact absurd (hm.symm.trans (mode_of_endsInClosingQuote hs hclosing)) (by simp)
    · rw [hm, ha] at hp
      generalize s.text = text at hp
      cases hp with
      | ordinary hb hc hb' =>
        exact ⟨_, before, _, _, _, _, _, hreads.separated, hb, hc, hb', by
          simpa [Scan.waiting, he] using hcs⟩

/-- Where a line dies, its beginning decides the fault, whatever follows. -/
theorem DiesAt.exists_cause {line start : String} {c : Char} (h : DiesAt line start c) :
    ∃ fault, Cause start.toList c fault ∧
      ∀ more, tokenize (start.push c ++ more) = .error fault := by
  obtain ⟨s, hs⟩ := viable_iff_run.mp (h.shortest start "" (by simp))
  have hrun : ({} : Scan).run (start.push c).toList = s.step c := by
    rw [String.toList_push, Scan.run_append_of_ok hs, Scan.run_singleton]
  obtain ⟨t, ht⟩ | ⟨fault, hf⟩ := Scan.move_or_refusal s c
  · exact absurd (viable_iff_run.mpr ⟨t, hrun.trans ht.step⟩) h.dead
  · refine ⟨fault, hf.cause hs, fun more => tokenize_of_run_error ?_⟩
    rw [String.toList_append]
    exact Scan.run_append_of_error (hrun.trans hf.step) more.toList

/-- A viable line is read, or its end reports the waiting backslash before the open block. -/
theorem Viable.tokenize_cases {line : String} (h : Viable line) :
    (∃ words, tokenize line = .ok words) ∨ tokenize line = .error
      (if Odd (trailingBackslashes line.toList) then .hangingEscape else .unterminatedQuote) := by
  obtain ⟨s, hs⟩ := viable_iff_run.mp h
  have hodd := Scan.escaping_iff_odd hs
  rw [tokenize_of_run hs]
  obtain hok | ⟨he, hf⟩ | ⟨he, hf⟩ := s.finish_cases
  · exact .inl hok
  · rw [hf, if_pos (hodd.mp he)]
    exact .inr rfl
  · rw [hf, if_neg (mt hodd.mpr (by simp [he]))]
    exact .inr rfl

/-- …and only viable lines are refused by their end. -/
theorem Viable.of_tokenize {line : String} (h : (∃ words, tokenize line = .ok words) ∨
    tokenize line = .error .hangingEscape ∨ tokenize line = .error .unterminatedQuote) :
    Viable line := by
  by_contra hv
  obtain ⟨start, c, hd⟩ := exists_diesAt hv
  obtain ⟨fault, hc, hall⟩ := hd.exists_cause
  obtain ⟨rest, rfl⟩ := hd.beginning
  rw [hall rest] at h
  cases hc <;> simp at h

/-- **The fault of a rejected line is the fault of its shortest dead beginning**, and a line
without one is refused at its end, for the backslash or the block that is open there. -/
theorem fault_of_tokenize (line : String) :
    ((∃ words, tokenize line = .ok words) ∨ tokenize line = .error .hangingEscape ∨
      tokenize line = .error .unterminatedQuote ↔ Viable line) ∧
    (¬ Viable line → ∃ start c, DiesAt line start c) ∧
    (∀ start c, DiesAt line start c → ∃ fault, tokenize line = .error fault ∧
      Cause start.toList c fault ∧ ∀ more, tokenize (start.push c ++ more) = .error fault) ∧
    (Viable line → (∃ fault, tokenize line = .error fault) → tokenize line = .error
      (if Odd (trailingBackslashes line.toList) then .hangingEscape else .unterminatedQuote)) := by
  refine ⟨⟨Viable.of_tokenize, fun hv => ?_⟩, exists_diesAt, fun start c hd => ?_,
    fun hv ⟨fault, hf⟩ => ?_⟩
  · obtain hok | hend := hv.tokenize_cases
    · exact .inl hok
    · split at hend
      · exact .inr (.inl hend)
      · exact .inr (.inr hend)
  · obtain ⟨fault, hc, hall⟩ := hd.exists_cause
    obtain ⟨rest, rfl⟩ := hd.beginning
    exact ⟨fault, hall rest, hc, hall⟩
  · obtain ⟨words, hok⟩ | hend := hv.tokenize_cases
    · rw [hok] at hf
      cases hf
    · exact hend

/-- A character right behind a closing quote kills the line, whatever follows. -/
theorem fault_of_tokenize_behind_block : DiesAt "'a'b c" "'a'" 'b' ∧
    ∀ more, tokenize ("'a'".push 'b' ++ more) = .error .missingBlank := by
  have hdead : ({} : Scan).run ("'a'".push 'b').toList = .error .missingBlank := rfl
  have hviable : Viable "'a'" := viable_iff_run.mpr ⟨_, rfl⟩
  have hdies : DiesAt "'a'b c" "'a'" 'b' := by
    refine ⟨⟨" c", rfl⟩, ?_, fun first rest hsplit => ?_⟩
    · rw [viable_iff_run, hdead]
      rintro ⟨s, hs⟩
      cases hs
    · rw [hsplit] at hviable
      exact hviable.of_append
  refine ⟨hdies, fun more => ?_⟩
  obtain ⟨fault, hf, -, hall⟩ := (fault_of_tokenize "'a'b c").2.2.1 "'a'" 'b' hdies
  have hline : tokenize "'a'b c" = .error .missingBlank := rfl
  obtain rfl : Fault.missingBlank = fault := Except.error.inj (hline.symm.trans hf)
  exact hall more

end LineShell.Line
