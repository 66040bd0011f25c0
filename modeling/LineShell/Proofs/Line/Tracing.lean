import LineShell.Proofs.Line.Moves

/-!
# Proofs/Line/Tracing — what an observer sees of a scan

    start ──c₁──▸ s₁ ──c₂──▸ s₂ ──▸ ⋯ ──cₘ──▸ sₘ ──c──✗
    saw     saw        saw             saw

An observer is shown the initial state and then the state after every character, up to the first
character that is refused.  It cannot change what it sees: the line is read or refused as if nobody
watched, and what the observer remembers is a fold over the trace (`tokenizeSeen_eq`).  The state
shown after `k` characters is the one in which the scan of these `k` characters alone ends
(`run_take_of_getElem?`), so it tells what would become of the line if it ended there
(`trace_decides`).
-/

namespace LineShell.Line

/-! ## Watching a scan

The observer keeps something of its own, of any type, and may change it whenever it is called. -/

section Watched

variable {σ : Type} (see : Option Char → Scan → σ → σ)

/-- Runs a scan while an observer is shown every state. -/
def Scan.runSeen : List Char → Scan → σ → Except Fault Scan × σ
  | [], s, memory => (.ok s, memory)
  | c :: rest, s, memory =>
      match s.step c with
      | .ok t => Scan.runSeen rest t (see (some c) t memory)
      | .error fault => (.error fault, memory)

/-- Splits a line into words while an observer is shown the initial state and every later one. -/
def tokenizeSeen (line : String) (memory : σ) : Except Fault (List String) × σ :=
  match Scan.runSeen see line.toList {} (see none {} memory) with
  | (.ok s, memory) => (s.finish, memory)
  | (.error fault, memory) => (.error fault, memory)

/-- What an observer remembers of states that it is shown in order. -/
def remembered (steps : List (Char × Scan)) (memory : σ) : σ :=
  steps.foldl (fun memory (c, s) => see (some c) s memory) memory

end Watched

/-- The states that the scan of a line goes through, the initial one first. -/
def states (line : String) : List Scan :=
  {} :: (({} : Scan).trace line.toList).map Prod.snd

namespace Scan

/-! ## The trace of a run -/

theorem trace_cons_of_move {s t : Scan} {c : Char} (h : Move s c t) (rest : List Char) :
    s.trace (c :: rest) = (c, t) :: t.trace rest := by simp only [trace, h.step]

theorem trace_cons_of_refusal {s : Scan} {c : Char} {fault : Fault} (h : Refusal s c fault)
    (rest : List Char) : s.trace (c :: rest) = [] := by simp only [trace, h.step]

/-- What has been shown of a run stays when more characters follow… -/
theorem trace_append_of_ok : ∀ {xs : List Char} {s t : Scan}, s.run xs = .ok t →
    ∀ ys, s.trace (xs ++ ys) = s.trace xs ++ t.trace ys
  | [], s, t, h, ys => by
    obtain rfl : s = t := Except.ok.inj h
    rfl
  | c :: xs, s, t, h, ys => by
    obtain ⟨u, hu⟩ | ⟨fault, hf⟩ := move_or_refusal s c
    · rw [run_cons_of_move hu] at h
      rw [List.cons_append, trace_cons_of_move hu, trace_cons_of_move hu, trace_append_of_ok h,
        List.cons_append]
    · simp only [run, hf.step] at h
      cases h

/-- …whether the run gets through its characters or not. -/
theorem trace_prefix_append : ∀ (xs ys : List Char) (s : Scan), s.trace xs <+: s.trace (xs ++ ys)
  | [], _, _ => List.nil_prefix
  | c :: xs, ys, s => by
    obtain ⟨t, ht⟩ | ⟨fault, hf⟩ := move_or_refusal s c
    · rw [List.cons_append, trace_cons_of_move ht, trace_cons_of_move ht, List.prefix_cons_inj]
      exact trace_prefix_append xs ys t
    · rw [trace_cons_of_refusal hf]
      exact List.nil_prefix

/-- The characters are shown in order, each once. -/
theorem map_fst_trace : ∀ (cs : List Char) (s : Scan),
    (s.trace cs).map Prod.fst = cs.take (s.trace cs).length
  | [], _ => rfl
  | c :: cs, s => by
    obtain ⟨t, ht⟩ | ⟨fault, hf⟩ := move_or_refusal s c
    · rw [trace_cons_of_move ht, List.map_cons, List.length_cons, List.take_succ_cons,
        map_fst_trace cs t]
    · rw [trace_cons_of_refusal hf]
      rfl

/-- All characters of a run that gets through are shown. -/
theorem length_trace_of_ok : ∀ {cs : List Char} {s t : Scan}, s.run cs = .ok t →
    (s.trace cs).length = cs.length
  | [], _, _, _ => rfl
  | c :: cs, s, t, h => by
    obtain ⟨u, hu⟩ | ⟨fault, hf⟩ := move_or_refusal s c
    · rw [run_cons_of_move hu] at h
      rw [trace_cons_of_move hu, List.length_cons, List.length_cons, length_trace_of_ok h]
    · simp only [run, hf.step] at h
      cases h

/-- **The state shown after some characters is the one that they lead to.** -/
theorem run_take_of_getElem? : ∀ {cs : List Char} {k : Nat} {s t : Scan},
    (s :: (s.trace cs).map Prod.snd)[k]? = some t → s.run (cs.take k) = .ok t
  | _, 0, s, t, h => by
    obtain rfl : s = t := Option.some.inj h
    rfl
  | [], k + 1, s, t, h => by simp [trace] at h
  | c :: cs, k + 1, s, t, h => by
    obtain ⟨u, hu⟩ | ⟨fault, hf⟩ := move_or_refusal s c
    · rw [trace_cons_of_move hu] at h
      rw [List.take_succ_cons, run_cons_of_move hu]
      exact run_take_of_getElem? h
    · simp [trace_cons_of_refusal hf] at h

/-- **A trace stops at the end of the line or at the first character that is refused.** -/
theorem trace_stops (cs : List Char) (s : Scan) :
    (∃ t, s.run cs = .ok t ∧ (s.trace cs).length = cs.length) ∨
      ∃ xs c ys t fault, cs = xs ++ c :: ys ∧ (s.trace cs).length = xs.length ∧
        s.run xs = .ok t ∧ Refusal t c fault ∧ s.run cs = .error fault := by
  cases hrun : s.run cs with
  | ok t => exact .inl ⟨t, rfl, length_trace_of_ok hrun⟩
  | error fault =>
    obtain ⟨xs, c, ys, t, rfl, hxs, hc⟩ := exists_refusal_of_run hrun
    refine .inr ⟨xs, c, ys, t, fault, rfl, ?_, hxs, hc, rfl⟩
    rw [trace_append_of_ok hxs, trace_cons_of_refusal hc, List.append_nil, length_trace_of_ok hxs]

/-! ## The observer -/

theorem runSeen_eq {σ : Type} (see : Option Char → Scan → σ → σ) : ∀ (cs : List Char) (s : Scan)
    (memory : σ), runSeen see cs s memory = (s.run cs, remembered see (s.trace cs) memory)
  | [], _, _ => rfl
  | c :: cs, s, memory => by
    obtain ⟨t, ht⟩ | ⟨fault, hf⟩ := move_or_refusal s c
    · rw [run_cons_of_move ht, trace_cons_of_move ht]
      simp only [runSeen, ht.step, runSeen_eq see cs t]
      rfl
    · rw [trace_cons_of_refusal hf]
      simp only [runSeen, run, hf.step]
      rfl

/-- What the end of a line makes of a state, read off its flags. -/
theorem finish_eq (s : Scan) : s.finish =
    if s.escaping then .error .hangingEscape
    else if s.mode = .inside .double ∨ s.mode = .inside .single then .error .unterminatedQuote
    else .ok s.tokens.toList := by
  cases he : s.escaping with
  | true => simp [finish, he]
  | false =>
    cases hm : s.mode with
    | outside => simp [finish, he, hm]
    | closed => simp [finish, he, hm]
    | inside q => cases q <;> simp [finish, he, hm]

/-- A character is refused for one of three causes. -/
theorem Refusal.fault_cases {s : Scan} {c : Char} {fault : Fault} (h : Refusal s c fault) :
    fault = .prematureQuote ∨ fault = .missingBlank ∨ fault = .illegalEscape c := by
  cases h with
  | illegalEscape => exact .inr (.inr rfl)
  | missingBlank => exact .inr (.inl rfl)
  | prematureQuote => exact .inl rfl

end Scan

/-- **An observer changes nothing**: a watched line is read or refused as any other, and the
observer has been shown the initial state and then the trace. -/
theorem tokenizeSeen_eq {σ : Type} (see : Option Char → Scan → σ → σ) (line : String)
    (memory : σ) : tokenizeSeen see line memory =
      (tokenize line, remembered see (({} : Scan).trace line.toList) (see none {} memory)) := by
  rw [tokenizeSeen, Scan.runSeen_eq, tokenize_eq_bind]
  cases ({} : Scan).run line.toList <;> rfl

/-- A line that ends where a state is shown ends in that state. -/
theorem tokenize_take {line : String} {k : Nat} {s : Scan} (h : (states line)[k]? = some s) :
    tokenize (.ofList (line.toList.take k)) = s.finish := by
  refine tokenize_of_run ?_
  rw [String.toList_ofList]
  exact Scan.run_take_of_getElem? h

/-- Some state is shown after every number of characters up to the end of the trace. -/
theorem exists_getElem?_states {line : String} {k : Nat}
    (h : k ≤ (({} : Scan).trace line.toList).length) : ∃ s, (states line)[k]? = some s := by
  have hlt : k < (states line).length := by
    simp only [states, List.length_cons, List.length_map]
    exact Nat.lt_succ_of_le h
  exact ⟨(states line)[k], List.getElem?_eq_getElem hlt⟩

/-- **The trace stops where the line is refused**: its length is the place of the character that the
last state shown cannot take. -/
theorem refused_behind_trace (line : String) :
    let m := (({} : Scan).trace line.toList).length
    m = line.length ∧ (∃ s, ({} : Scan).run line.toList = .ok s) ∨
      ∃ c s fault, line.toList[m]? = some c ∧ (states line)[m]? = some s ∧
        Scan.Refusal s c fault ∧ tokenize line = .error fault := by
  intro m
  obtain ⟨t, hrun, hlen⟩ | ⟨xs, c, ys, t, fault, hline, hlen, hxs, hc, hrun⟩ :=
    Scan.trace_stops line.toList {}
  · exact .inl ⟨hlen.trans String.length_toList, t, hrun⟩
  · obtain ⟨s, hs⟩ := exists_getElem?_states (Nat.le_refl m)
    have htake : line.toList.take m = xs := by
      rw [hline]
      exact List.take_left' hlen.symm
    have hget : line.toList[m]? = some c := by
      rw [hline, List.getElem?_append_right (Nat.le_of_eq hlen.symm), hlen]
      simp
    have hrunm : ({} : Scan).run xs = .ok s := htake ▸ Scan.run_take_of_getElem? hs
    obtain rfl : s = t := Except.ok.inj (hrunm.symm.trans hxs)
    exact .inr ⟨c, s, fault, hget, hs, hc, tokenize_of_run_error hrun⟩

/-- **The trace is a view of the scan that never lags behind.**  Watching a line does not change how
it is read.  The initial state is shown, and then the state after each character, in order, up to
the end of the line or to the first character that is refused, which decides the fault.  The state
shown after `k` characters decides how the line that consists of them is read, and the trace of a
line begins the trace of every line that begins with it. -/
theorem trace_decides (line : String) :
    let steps : List (Char × Scan) := ({} : Scan).trace line.toList
    let m := steps.length
    (∀ {σ : Type} (see : Option Char → Scan → σ → σ) (memory : σ),
      tokenizeSeen see line memory =
        (tokenize line, remembered see steps (see none {} memory))) ∧
    steps.map Prod.fst = line.toList.take m ∧
    (m = line.length ∧ (∃ s, ({} : Scan).run line.toList = .ok s) ∨
      ∃ c s fault, line.toList[m]? = some c ∧ (states line)[m]? = some s ∧
        s.step c = .error fault ∧ tokenize line = .error fault ∧
        (fault = .prematureQuote ∨ fault = .missingBlank ∨ fault = .illegalEscape c)) ∧
    (∀ k ≤ m, ∃ s, (states line)[k]? = some s ∧
      tokenize (.ofList (line.toList.take k)) =
        if s.escaping then .error .hangingEscape
        else if s.mode = .inside .double ∨ s.mode = .inside .single then
          .error .unterminatedQuote
        else .ok s.tokens.toList) ∧
    ∀ more : String, steps <+: ({} : Scan).trace (line ++ more).toList := by
  refine ⟨fun see memory => tokenizeSeen_eq see line memory, Scan.map_fst_trace _ _, ?_,
    fun k hk => ?_, fun more => ?_⟩
  · obtain hend | ⟨c, s, fault, hget, hs, hc, hline⟩ := refused_behind_trace line
    · exact .inl hend
    · exact .inr ⟨c, s, fault, hget, hs, hc.step, hline, hc.fault_cases⟩
  · obtain ⟨s, hs⟩ := exists_getElem?_states hk
    exact ⟨s, hs, (tokenize_take hs).trans s.finish_eq⟩
  · rw [String.toList_append]
    exact Scan.trace_prefix_append line.toList more.toList {}

end LineShell.Line
