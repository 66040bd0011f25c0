import LineShell.Line.Scan

/-!
# Proofs/Line/Moves — what one character does to a scan

    s ──c──▸ t   (`Move`)          s ──c──✗ fault   (`Refusal`)

`step` tries its tests one after the other.  The two relations give for every rule the whole
condition under which it claims a character, and `step_eq_ok_iff` and `step_eq_error_iff` say that
nothing else happens: no later proof opens `step` again.
-/

namespace LineShell.Line

namespace Scan

/-! ## The rules -/

/-- One character leads from one state to the next, by the rule that claims it. -/
inductive Move : Scan → Char → Scan → Prop
  /-- The character after a backslash joins the word. -/
  | escaped {s : Scan} {c : Char} : s.mode ≠ .closed → s.escaping = true →
      isEscapable c = true → Move s c { s.push c with escaping := false }
  /-- A blank outside blocks ends the word. -/
  | separated {s : Scan} {c : Char} : s.mode = .closed ∨ s.mode = .outside ∧ s.escaping = false →
      Text.isBlank c = true → Move s c s.separate
  /-- A backslash waits for the character that it escapes. -/
  | backslash {s : Scan} : s.mode ≠ .closed → s.escaping = false →
      Move s '\\' { s with escaping := true }
  /-- A quote opens a block, unless the word holds an ordinary character. -/
  | opened {s : Scan} {q : Quote} : s.mode = .outside → s.escaping = false →
      s.afterBlank = true → Move s q.char (s.openQuote q)
  /-- The same quote closes the block. -/
  | closed {s : Scan} {q : Quote} : s.mode = .inside q → s.escaping = false →
      Move s q.char { s with mode := .closed }
  /-- The other quote has no meaning inside a block. -/
  | otherQuote {s : Scan} {p q : Quote} : s.mode = .inside q → s.escaping = false → p ≠ q →
      Move s p.char (s.push p.char)
  /-- An ordinary character joins a word outside blocks. -/
  | ordinary {s : Scan} {c : Char} : s.mode = .outside → s.escaping = false →
      isOrdinary c = true → Move s c (s.pushOrdinary c)
  /-- Ordinary characters and blanks join a word inside a block. -/
  | plain {s : Scan} {q : Quote} {c : Char} : s.mode = .inside q → s.escaping = false →
      isEscapable c = false → Move s c (s.pushOrdinary c)

/-- One character cannot be read in a state, for the given cause. -/
inductive Refusal : Scan → Char → Fault → Prop
  /-- Only quotes and backslashes can be escaped. -/
  | illegalEscape {s : Scan} {c : Char} : s.mode ≠ .closed → s.escaping = true →
      isEscapable c = false → Refusal s c (.illegalEscape c)
  /-- A closed block ends its word. -/
  | missingBlank {s : Scan} {c : Char} : s.mode = .closed → Text.isBlank c = false →
      Refusal s c .missingBlank
  /-- No block opens after an ordinary character. -/
  | prematureQuote {s : Scan} {q : Quote} : s.mode = .outside → s.escaping = false →
      s.afterBlank = false → Refusal s q.char .prematureQuote

/-! ## `step` follows the rules

Every state and character fall under exactly one rule, so each relation is the whole of its half
of `step`. -/

theorem Move.step {s t : Scan} {c : Char} (h : Move s c t) : s.step c = .ok t := by
  cases h with
  | escaped hm he hc =>
    cases hs : s.mode with
    | closed => exact absurd hs hm
    | outside => simp [Scan.step, hs, stepOutside, he, escape, hc]
    | inside q => simp [Scan.step, hs, stepInside, he, escape, hc]
  | separated hm hc =>
    rcases hm with hm | ⟨hm, he⟩
    · simp [Scan.step, hm, hc]
    · simp [Scan.step, hm, stepOutside, he, hc]
  | backslash hm he =>
    cases hs : s.mode with
    | closed => exact absurd hs hm
    | outside => simp [Scan.step, hs, stepOutside, he, Text.isBlank_backslash]
    | inside q => simp [Scan.step, hs, stepInside, he]
  | @opened q hm he ha =>
    simp [Scan.step, hm, stepOutside, he, isBlank_quote, Quote.char_ne_backslash,
      Quote.ofChar?_char, ha]
  | @closed q hm he =>
    simp [Scan.step, hm, stepInside, he, Quote.char_ne_backslash, Quote.ofChar?_char]
  | @otherQuote p q hm he hq =>
    simp [Scan.step, hm, stepInside, he, Quote.char_ne_backslash, Quote.ofChar?_char, hq]
  | ordinary hm he hc =>
    simp only [isOrdinary, Bool.and_eq_true, Bool.not_eq_true'] at hc
    obtain ⟨hq, hb⟩ := isEscapable_eq_false_iff.mp hc.2
    simp [Scan.step, hm, stepOutside, he, hc.1, hq, hb]
  | plain hm he hc =>
    obtain ⟨hq, hb⟩ := isEscapable_eq_false_iff.mp hc
    simp [Scan.step, hm, stepInside, he, hq, hb]

theorem Refusal.step {s : Scan} {c : Char} {fault : Fault} (h : Refusal s c fault) :
    s.step c = .error fault := by
  cases h with
  | illegalEscape hm he hc =>
    cases hs : s.mode with
    | closed => exact absurd hs hm
    | outside => simp [Scan.step, hs, stepOutside, he, escape, hc]
    | inside q => simp [Scan.step, hs, stepInside, he, escape, hc]
  | missingBlank hm hc => simp [Scan.step, hm, hc]
  | @prematureQuote q hm he ha =>
    simp [Scan.step, hm, stepOutside, he, isBlank_quote, Quote.char_ne_backslash,
      Quote.ofChar?_char, ha]

/-- **Some rule claims every character in every state.** -/
theorem move_or_refusal (s : Scan) (c : Char) :
    (∃ t, Move s c t) ∨ ∃ fault, Refusal s c fault := by
  by_cases hm : s.mode = .closed
  · cases hb : Text.isBlank c with
    | true => exact .inl ⟨_, .separated (.inl hm) hb⟩
    | false => exact .inr ⟨_, .missingBlank hm hb⟩
  cases he : s.escaping with
  | true =>
    cases hc : isEscapable c with
    | true => exact .inl ⟨_, .escaped hm he hc⟩
    | false => exact .inr ⟨_, .illegalEscape hm he hc⟩
  | false =>
    cases hs : s.mode with
    | closed => exact absurd hs hm
    | outside =>
      cases hb : Text.isBlank c with
      | true => exact .inl ⟨_, .separated (.inr ⟨hs, he⟩) hb⟩
      | false =>
        cases hc : isEscapable c with
        | false => exact .inl ⟨_, .ordinary hs he (by simp [isOrdinary, hb, hc])⟩
        | true =>
          obtain ⟨q, rfl⟩ | rfl := isEscapable_eq_true_iff.mp hc
          · cases ha : s.afterBlank with
            | true => exact .inl ⟨_, .opened hs he ha⟩
            | false => exact .inr ⟨_, .prematureQuote hs he ha⟩
          · exact .inl ⟨_, .backslash hm he⟩
    | inside q =>
      cases hc : isEscapable c with
      | false => exact .inl ⟨_, .plain hs he hc⟩
      | true =>
        obtain ⟨p, rfl⟩ | rfl := isEscapable_eq_true_iff.mp hc
        · by_cases hq : p = q
          · subst hq
            exact .inl ⟨_, .closed hs he⟩
          · exact .inl ⟨_, .otherQuote hs he hq⟩
        · exact .inl ⟨_, .backslash hm he⟩

theorem step_eq_ok_iff {s t : Scan} {c : Char} : s.step c = .ok t ↔ Move s c t := by
  refine ⟨fun h => ?_, Move.step⟩
  obtain ⟨u, hu⟩ | ⟨fault, hf⟩ := move_or_refusal s c
  · obtain rfl : u = t := Except.ok.inj (hu.step.symm.trans h)
    exact hu
  · exact absurd (hf.step.symm.trans h) (by simp)

theorem step_eq_error_iff {s : Scan} {c : Char} {fault : Fault} :
    s.step c = .error fault ↔ Refusal s c fault := by
  refine ⟨fun h => ?_, Refusal.step⟩
  obtain ⟨u, hu⟩ | ⟨f, hf⟩ := move_or_refusal s c
  · exact absurd (hu.step.symm.trans h) (by simp)
  · obtain rfl : f = fault := Except.error.inj (hf.step.symm.trans h)
    exact hf

/-! ## Runs, one move after another -/

theorem run_cons_of_move {s t : Scan} {c : Char} (h : Move s c t) (rest : List Char) :
    s.run (c :: rest) = t.run rest := by simp only [run, h.step]

theorem run_append_of_ok {s t : Scan} {xs : List Char} (h : s.run xs = .ok t) (ys : List Char) :
    s.run (xs ++ ys) = t.run ys := by rw [run_append, h]; rfl

theorem run_append_of_error {s : Scan} {xs : List Char} {fault : Fault}
    (h : s.run xs = .error fault) (ys : List Char) : s.run (xs ++ ys) = .error fault := by
  rw [run_append, h]; rfl

theorem run_singleton (s : Scan) (c : Char) : s.run [c] = s.step c := by
  simp only [run]
  cases s.step c <;> rfl

/-- **What every rule keeps, a run keeps.** -/
theorem run_induction {P : List Char → Scan → Prop} (hstep : ∀ {read s c t}, P read s →
    Move s c t → P (read ++ [c]) t) : ∀ (cs read : List Char) {s t : Scan}, P read s →
    s.run cs = .ok t → P (read ++ cs) t
  | [], read, s, t, h, hr => by
    obtain rfl : s = t := Except.ok.inj hr
    simpa using h
  | c :: cs, read, s, t, h, hr => by
    obtain ⟨u, hu⟩ | ⟨fault, hf⟩ := move_or_refusal s c
    · rw [run_cons_of_move hu] at hr
      have := run_induction hstep cs (read ++ [c]) (hstep h hu) hr
      rwa [List.append_assoc, List.singleton_append] at this
    · simp only [run, hf.step] at hr
      cases hr

/-- A run that fails stops at the first character that is refused. -/
theorem exists_refusal_of_run : ∀ {cs : List Char} {s : Scan} {fault : Fault},
    s.run cs = .error fault →
      ∃ xs c ys t, cs = xs ++ c :: ys ∧ s.run xs = .ok t ∧ Refusal t c fault
  | [], _, _, h => by cases h
  | c :: cs, s, fault, h => by
    obtain ⟨u, hu⟩ | ⟨f, hf⟩ := move_or_refusal s c
    · rw [run_cons_of_move hu] at h
      obtain ⟨xs, d, ys, t, rfl, hxs, hd⟩ := exists_refusal_of_run h
      exact ⟨c :: xs, d, ys, t, rfl, (run_cons_of_move hu xs).trans hxs, hd⟩
    · simp only [run, hf.step] at h
      obtain rfl : f = fault := Except.error.inj h
      exact ⟨[], c, cs, s, rfl, rfl, hf⟩

/-- A scan may end here: no backslash waits and no block is open. -/
def AtRest (s : Scan) : Prop := s.escaping = false ∧ ∀ q, s.mode ≠ .inside q

theorem finish_eq_ok_iff {s : Scan} {words : List String} :
    s.finish = .ok words ↔ s.AtRest ∧ words = s.tokens.toList := by
  rcases s with ⟨finished, current, mode, escaping, afterBlank⟩
  cases escaping <;> cases mode <;> simp [finish, AtRest, eq_comm]

/-- A blank ends the word of a scan that may end. -/
theorem AtRest.move {s : Scan} (h : s.AtRest) {b : Char} (hb : Text.isBlank b = true) :
    Move s b s.separate := by
  refine .separated ?_ hb
  cases hs : s.mode with
  | closed => exact .inl rfl
  | outside => exact .inr ⟨rfl, h.1⟩
  | inside q => exact absurd hs (h.2 q)

end Scan

theorem tokenize_eq_bind (line : String) :
    tokenize line = (({} : Scan).run line.toList).bind Scan.finish := by
  simp only [tokenize]
  cases ({} : Scan).run line.toList <;> rfl

theorem tokenize_of_run {line : String} {s : Scan} (h : ({} : Scan).run line.toList = .ok s) :
    tokenize line = s.finish := by
  rw [tokenize_eq_bind, h]
  rfl

theorem tokenize_of_run_error {line : String} {fault : Fault}
    (h : ({} : Scan).run line.toList = .error fault) : tokenize line = .error fault := by
  rw [tokenize_eq_bind, h]
  rfl

/-- A line is read when the scan gets through it and may end there. -/
theorem exists_run_of_tokenize {line : String} {words : List String}
    (h : tokenize line = .ok words) :
    ∃ s, ({} : Scan).run line.toList = .ok s ∧ s.AtRest ∧ words = s.tokens.toList := by
  cases hrun : ({} : Scan).run line.toList with
  | ok s => exact ⟨s, rfl, Scan.finish_eq_ok_iff.mp ((tokenize_of_run hrun).symm.trans h)⟩
  | error fault =>
    rw [tokenize_of_run_error hrun] at h
    cases h

end LineShell.Line
