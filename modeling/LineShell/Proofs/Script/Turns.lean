import LineShell.Script.Runner
import LineShell.Proofs.Session.Answers

/-!
# Proofs/Script/Turns — what a runner does with one line after another

    r ──line──▸ r'  (`Pass`)      r ──line──■ result, r'  (`Halt`)

A runner passes a line or halts at it.  A run passes lines until one halts it or none is left
(`passes_or_halts`), and `Passes` adds up what the passed lines have done: each is counted, each that
cannot be read is noted, and the commands among them are run one after another as if they had been
typed (`Passes.execEach`).
-/

namespace LineShell

namespace Session

/-! ## Typing lines -/

theorem exec_of_tokenize {s : Session} {line : String} {tokens : List String}
    (h : Line.tokenize line = .ok tokens) : s.exec line = s.execTokens line tokens :=
  execWith_of_tokenize h

/-- Runs lines in order as long as the session lasts, up to the first that fails. -/
def execEach : List String → Session → Outcome Unit
  | [], s => (.ok (), s)
  | line :: rest, s =>
      if s.isActive then
        match s.exec line with
        | (.ok (), t) => t.execEach rest
        | (.error failure, t) => (.error failure, t)
      else (.ok (), s)

theorem execEach_of_not_isActive {s : Session} (h : s.isActive = false) :
    ∀ lines, s.execEach lines = (.ok (), s)
  | [] => rfl
  | _ :: _ => by simp [execEach, h]

theorem execEach_cons_of_ok {s t : Session} {line : String} (ha : s.isActive = true)
    (h : s.exec line = (.ok (), t)) (rest : List String) :
    s.execEach (line :: rest) = t.execEach rest := by
  simp only [execEach, if_pos ha, h]

theorem execEach_cons_of_error {s t : Session} {line : String} {failure : Failure}
    (ha : s.isActive = true) (h : s.exec line = (.error failure, t)) (rest : List String) :
    s.execEach (line :: rest) = (.error failure, t) := by
  simp only [execEach, if_pos ha, h]

/-- Lines typed without a failure can be followed by others. -/
theorem execEach_append_of_ok {ys : List String} : ∀ {xs : List String} {s t : Session},
    s.execEach xs = (.ok (), t) → s.execEach (xs ++ ys) = t.execEach ys
  | [], s, t, h => by
    obtain rfl : s = t := (Prod.mk.inj h).2
    rfl
  | line :: xs, s, t, h => by
    cases ha : s.isActive with
    | false =>
      rw [execEach_of_not_isActive ha] at h
      obtain rfl : s = t := (Prod.mk.inj h).2
      rw [execEach_of_not_isActive ha, execEach_of_not_isActive ha]
    | true =>
      rcases hx : s.exec line with ⟨failure | _, u⟩
      · rw [execEach_cons_of_error ha hx] at h
        cases h
      · rw [execEach_cons_of_ok ha hx] at h
        rw [List.cons_append, execEach_cons_of_ok ha hx, execEach_append_of_ok h]

end Session

namespace Script

/-! ## Three kinds of lines -/

/-- Why a line that is no comment cannot be read. -/
def fault? (line : String) : Option Line.Fault :=
  if isComment line then none
  else match Line.tokenize line with
    | .error fault => some fault
    | .ok _ => none

/-- A line that is run: it is no comment, and it can be read. -/
def isCommand (line : String) : Bool := !isComment line && (Line.tokenize line).isOk

theorem fault?_eq_some_iff {line : String} {fault : Line.Fault} :
    fault? line = some fault ↔ isComment line = false ∧ Line.tokenize line = .error fault := by
  unfold fault?
  cases isComment line <;> cases Line.tokenize line <;> simp

theorem isCommand_iff {line : String} :
    isCommand line = true ↔ isComment line = false ∧ ∃ tokens, Line.tokenize line = .ok tokens := by
  unfold isCommand
  cases isComment line <;> cases Line.tokenize line <;> simp [Except.isOk, Except.toBool]

theorem isCommand_of_isComment {line : String} (h : isComment line = true) :
    isCommand line = false := by simp [isCommand, h]

theorem isCommand_of_fault? {line : String} {fault : Line.Fault} (h : fault? line = some fault) :
    isCommand line = false := by
  rw [isCommand, (fault?_eq_some_iff.mp h).2]
  simp [Except.isOk, Except.toBool]

theorem fault?_of_isCommand {line : String} (h : isCommand line = true) : fault? line = none := by
  obtain ⟨hc, tokens, ht⟩ := isCommand_iff.mp h
  simp [fault?, hc, ht]

/-- Every line is of one kind. -/
theorem line_kinds (line : String) :
    isComment line = true ∨ (∃ fault, fault? line = some fault) ∨ isCommand line = true := by
  cases hc : isComment line with
  | true => exact .inl rfl
  | false =>
    cases ht : Line.tokenize line with
    | error fault => exact .inr (.inl ⟨fault, fault?_eq_some_iff.mpr ⟨hc, ht⟩⟩)
    | ok tokens => exact .inr (.inr (isCommand_iff.mpr ⟨hc, tokens, ht⟩))

/-- The notes on the lines that cannot be read, with the lines numbered from `number`. -/
def lineErrors (path : String) (number : Nat) (lines : List String) : List LineError :=
  (lines.zipIdx number).filterMap fun (line, n) =>
    (fault? line).map fun fault => ⟨fault.name, n, path⟩

theorem lineErrors_cons (path : String) (number : Nat) (line : String) (rest : List String) :
    lineErrors path number (line :: rest) =
      ((fault? line).map fun fault => ⟨fault.name, number, path⟩).toList ++
        lineErrors path (number + 1) rest := by
  cases h : fault? line <;> simp [lineErrors, h]

theorem lineErrors_append (path : String) (number : Nat) (xs ys : List String) :
    lineErrors path number (xs ++ ys) =
      lineErrors path number xs ++ lineErrors path (number + xs.length) ys := by
  simp [lineErrors, List.zipIdx_append]

namespace Runner

/-! ## One line -/

/-- The runner takes in the line and goes on. -/
inductive Pass (path : String) (number : Nat) (line : String) : Runner → Runner → Prop
  /-- A comment is counted. -/
  | skipped {r : Runner} : isComment line = true →
      Pass path number line r { r with lineCount := r.lineCount + 1 }
  /-- A line that cannot be read is noted. -/
  | noted {r : Runner} {fault : Line.Fault} : fault? line = some fault →
      Pass path number line r { r with
        lineCount := r.lineCount + 1
        errors := r.errors.push ⟨fault.name, number, path⟩ }
  /-- A command is run. -/
  | ran {r : Runner} {s : Session} : isCommand line = true → r.session.isActive = true →
      r.session.exec line = (.ok (), s) →
      Pass path number line r { r with
        session := s
        lineCount := r.lineCount + 1
        commandCount := r.commandCount + 1 }

/-- The line ends the run. -/
inductive Halt (line : String) : Runner → Except LineShell.Failure Unit → Runner → Prop
  /-- A command finds that the session has ended. -/
  | stopped {r : Runner} : isCommand line = true → r.session.isActive = false →
      Halt line r (.ok ()) { r with lineCount := r.lineCount + 1 }
  /-- A command fails. -/
  | failed {r : Runner} {failure : LineShell.Failure} {s : Session} : isCommand line = true →
      r.session.isActive = true → r.session.exec line = (.error failure, s) →
      Halt line r (.error failure) { r with session := s, lineCount := r.lineCount + 1 }

/-- **A runner passes a line or halts at it.** -/
theorem pass_or_halt (path : String) (number : Nat) (line : String) (r : Runner) :
    (∃ r', Pass path number line r r') ∨ ∃ result r', Halt line r result r' := by
  rcases line_kinds line with hc | ⟨fault, hf⟩ | hc
  · exact .inl ⟨_, .skipped hc⟩
  · exact .inl ⟨_, .noted hf⟩
  · cases ha : r.session.isActive with
    | false => exact .inr ⟨_, _, .stopped hc ha⟩
    | true =>
      rcases hx : r.session.exec line with ⟨failure | _, s⟩
      · exact .inr ⟨_, _, .failed hc ha hx⟩
      · exact .inl ⟨_, .ran hc ha hx⟩

theorem Pass.runFrom {path : String} {number : Nat} {line : String} {r r' : Runner}
    (h : Pass path number line r r') (rest : List String) :
    runFrom path number (line :: rest) r = runFrom path (number + 1) rest r' := by
  cases h with
  | skipped hc => simp only [Runner.runFrom, if_pos hc]
  | noted hf =>
    obtain ⟨hc, ht⟩ := fault?_eq_some_iff.mp hf
    simp [Runner.runFrom, hc, ht]
  | ran hc ha hx =>
    obtain ⟨hc, tokens, ht⟩ := isCommand_iff.mp hc
    rw [Session.exec_of_tokenize ht] at hx
    simp [Runner.runFrom, hc, ht, ha, hx]

theorem Halt.runFrom {path : String} {number : Nat} {line : String} {r r' : Runner}
    {result : Except LineShell.Failure Unit} (h : Halt line r result r') (rest : List String) :
    runFrom path number (line :: rest) r = (result, r') := by
  cases h with
  | stopped hc ha =>
    obtain ⟨hc, tokens, ht⟩ := isCommand_iff.mp hc
    simp [Runner.runFrom, hc, ht, ha]
  | failed hc ha hx =>
    obtain ⟨hc, tokens, ht⟩ := isCommand_iff.mp hc
    rw [Session.exec_of_tokenize ht] at hx
    simp [Runner.runFrom, hc, ht, ha, hx]

/-! ## One line after another -/

/-- The runner takes in all the lines. -/
inductive Passes (path : String) : Nat → List String → Runner → Runner → Prop
  | nil {number : Nat} {r : Runner} : Passes path number [] r r
  | cons {number : Nat} {line : String} {rest : List String} {r r' r'' : Runner} :
      Pass path number line r r' → Passes path (number + 1) rest r' r'' →
      Passes path number (line :: rest) r r''

theorem Passes.runFrom {path : String} {number : Nat} {lines : List String} {r r' : Runner}
    (h : Passes path number lines r r') (rest : List String) :
    runFrom path number (lines ++ rest) r = runFrom path (number + lines.length) rest r' := by
  induction h with
  | nil => rfl
  | cons hp _ ih =>
    rw [List.cons_append, hp.runFrom, ih, List.length_cons, Nat.add_assoc, Nat.add_comm 1]

/-- **A run passes all lines or halts at one of them.** -/
theorem passes_or_halts (path : String) : ∀ (lines : List String) (number : Nat) (r : Runner),
    (∃ r', Passes path number lines r r') ∨
      ∃ before line behind r' result r'', lines = before ++ line :: behind ∧
        Passes path number before r r' ∧ Halt line r' result r''
  | [], _, r => .inl ⟨r, .nil⟩
  | line :: rest, number, r => by
    obtain ⟨r', hp⟩ | ⟨result, r', hh⟩ := pass_or_halt path number line r
    · obtain ⟨r'', hps⟩ | ⟨before, stop, behind, r'', result, r₃, rfl, hps, hh⟩ :=
        passes_or_halts path rest (number + 1) r'
      · exact .inl ⟨r'', .cons hp hps⟩
      · exact .inr ⟨line :: before, stop, behind, r'', result, r₃, rfl, .cons hp hps, hh⟩
    · exact .inr ⟨[], line, rest, r, result, r', rfl, .nil, hh⟩

theorem runLines_of_passes {path : String} {lines : List String} {r r' : Runner}
    (h : Passes path 1 lines r r') : r.runLines lines path = (.ok (), r') := by
  have hrun := h.runFrom []
  rwa [List.append_nil] at hrun

/-- No line behind the one that halts a run matters. -/
theorem runLines_of_halts {path line : String} {before : List String} {r r' r'' : Runner}
    {result : Except LineShell.Failure Unit} (h : Passes path 1 before r r')
    (hh : Halt line r' result r'') (behind : List String) :
    r.runLines (before ++ line :: behind) path = (result, r'') := by
  rw [runLines, h.runFrom, hh.runFrom]

/-! ## What the passed lines have done -/

section Passes

variable {path : String} {number : Nat} {lines : List String} {r r' : Runner}

theorem Passes.lineCount (h : Passes path number lines r r') :
    r'.lineCount = r.lineCount + lines.length := by
  induction h with
  | nil => rfl
  | cons hp _ ih => cases hp <;> simp only [ih, List.length_cons] <;> omega

theorem Passes.errors (h : Passes path number lines r r') :
    r'.errors.toList = r.errors.toList ++ lineErrors path number lines := by
  induction h with
  | nil => simp [lineErrors]
  | cons hp _ ih =>
    rw [ih, lineErrors_cons]
    cases hp with
    | skipped hc => simp [fault?, hc]
    | noted hf => simp [hf]
    | ran hc ha hx => simp [fault?_of_isCommand hc]

theorem Passes.commandCount (h : Passes path number lines r r') :
    r'.commandCount = r.commandCount + lines.countP isCommand := by
  induction h with
  | nil => rfl
  | cons hp _ ih =>
    rw [ih]
    cases hp with
    | skipped hc => simp [isCommand_of_isComment hc]
    | noted hf => simp [isCommand_of_fault? hf]
    | ran hc ha hx => simp [hc]; omega

/-- **The passed commands have run as if they had been typed.** -/
theorem Passes.execEach (h : Passes path number lines r r') :
    r.session.execEach (lines.filter isCommand) = (.ok (), r'.session) := by
  induction h with
  | nil => rfl
  | cons hp _ ih =>
    cases hp with
    | skipped hc => simpa [isCommand_of_isComment hc] using ih
    | noted hf => simpa [isCommand_of_fault? hf] using ih
    | ran hc ha hx =>
      rw [List.filter_cons_of_pos hc, Session.execEach_cons_of_ok ha hx]
      exact ih

end Passes

end Runner

end Script

end LineShell
