import LineShell.Proofs.Script.Turns
import LineShell.Proofs.Session.Steps

/-!
# Proofs/Script/Account — the account of a run

    lines  ═  comments  +  unreadable lines  +  commands  (+  the line that stops the run)

The first command that finds the session ended stops a run (`stop?`), and lines that cannot be read
do not, wherever they stand.  When the bodies that the script calls return, the counts and the notes
of a runner are those of the lines up to there, and nothing behind is looked at
(`runLines_account`).
-/

namespace LineShell

namespace Session

/-- The body that the line calls in the session, if it calls one, returns an exit code. -/
def LineReturns (s : Session) (line : String) : Prop :=
  ∀ c args, s.Calls (Line.tokenize line) c args → c.info.Admits args.length →
    ∃ code t, (c.body args).perform nestingLimit (s.log line) = (.ok code, t)

theorem LineReturns.exists_exec {s : Session} {line : String} (h : s.LineReturns line)
    (ha : s.isActive = true) : ∃ t, s.exec line = (.ok (), t) := by
  rcases hx : s.exec line with ⟨failure | _, t⟩
  · cases execWith_eq_iff.mp hx with
    | inactive hi => simp [ha] at hi
    | failed _ hc hcount hend =>
      obtain ⟨code, u, hret⟩ := h _ _ hc hcount
      cases hret.symm.trans hend
  · exact ⟨t, rfl⟩

theorem steps_execEach : ∀ (lines : List String) (s : Session), Steps s (s.execEach lines).2
  | [], _ => .refl
  | line :: rest, s => by
    cases ha : s.isActive with
    | false =>
      rw [execEach_of_not_isActive ha]
    | true =>
      have hline := steps_exec s line
      rcases hx : s.exec line with ⟨failure | _, t⟩
      · rw [execEach_cons_of_error ha hx]
        rwa [hx] at hline
      · rw [execEach_cons_of_ok ha hx]
        rw [hx] at hline
        exact hline.trans (steps_execEach rest t)

end Session

namespace Script

/-! ## The line that stops a run -/

/-- The session after the commands among the lines. -/
def sessionAfter (s : Session) (lines : List String) : Session :=
  (s.execEach (lines.filter isCommand)).2

/-- The line at a place, counted from zero, is a command that finds the session ended. -/
def findsEnded (s : Session) (lines : List String) (i : Nat) : Bool :=
  lines[i]?.any isCommand && !(sessionAfter s (lines.take i)).isActive

/-- The place of the line that stops a run, the first command that finds the session ended. -/
def stop? (s : Session) (lines : List String) : Option Nat :=
  (List.range lines.length).find? (findsEnded s lines)

/-- How many lines a run reads; the line that stops it is the last of them. -/
def readCount (s : Session) (lines : List String) : Nat :=
  match stop? s lines with
  | some i => i + 1
  | none => lines.length

/-- Every body that the commands among the lines call returns an exit code. -/
def Returning (s : Session) (lines : List String) : Prop :=
  ∀ before line behind, lines = before ++ line :: behind → isCommand line = true →
    (sessionAfter s before).isActive = true → (sessionAfter s before).LineReturns line

/-- Commands whose bodies always return make every script return. -/
theorem returning_of_bodies {s : Session} (h : ∀ c ∈ s.commands.commands, ∀ args u,
    ∃ code t, (c.body args).perform Session.nestingLimit u = (.ok code, t))
    (lines : List String) : Returning s lines := by
  intro before line behind _ _ _ c args hc _
  have hsame : (sessionAfter s before).commands = s.commands :=
    (Session.steps_execEach _ s).commands
  exact h c (hsame ▸ hc.registered) args _

/-- So do the commands every session starts with. -/
theorem returning_builtin {s : Session} (h : s.commands = Builtin.registry)
    (lines : List String) : Returning s lines := by
  refine returning_of_bodies (fun c hc args u => ?_) lines
  rw [h] at hc
  obtain ⟨code, t, -, ht⟩ := (Builtin.yields_builtin c hc args).exists_performWith _ u
  exact ⟨code, t, ht⟩

theorem findsEnded_append {s : Session} {before : List String} {i : Nat}
    (hi : i < before.length) (rest : List String) :
    findsEnded s (before ++ rest) i = findsEnded s before i := by
  simp only [findsEnded, List.getElem?_append_left hi, List.take_append_of_le_length (Nat.le_of_lt hi)]

namespace Runner

section Passes

variable {path : String} {number : Nat} {lines before rest : List String} {line : String}
  {r r' : Runner}

theorem Passes.of_append : ∀ {before : List String} {number : Nat} {r : Runner},
    Passes path number (before ++ rest) r r' →
      ∃ u, Passes path number before r u ∧ Passes path (number + before.length) rest u r'
  | [], _, r, h => ⟨r, .nil, h⟩
  | _ :: before, number, _, .cons hp hps => by
    obtain ⟨u, hb, hr⟩ := of_append hps
    refine ⟨u, .cons hp hb, ?_⟩
    rwa [List.length_cons, Nat.add_comm before.length, ← Nat.add_assoc]

theorem Passes.sessionAfter (h : Passes path number lines r r') :
    sessionAfter r.session lines = r'.session := by
  rw [Script.sessionAfter, h.execEach]

/-- A command that is passed finds the session active. -/
theorem Passes.isActive (h : Passes path number (before ++ line :: rest) r r')
    (hc : isCommand line = true) : (Script.sessionAfter r.session before).isActive = true := by
  obtain ⟨u, hb, hl⟩ := h.of_append
  rw [hb.sessionAfter]
  cases hl with
  | cons hp _ =>
    cases hp with
    | skipped h' => simp [isCommand_of_isComment h'] at hc
    | noted h' => simp [isCommand_of_fault? h'] at hc
    | ran _ ha _ => exact ha

theorem Passes.findsEnded (h : Passes path number lines r r') {i : Nat}
    (hi : i < lines.length) : findsEnded r.session lines i = false := by
  have hsplit : lines = lines.take i ++ lines[i] :: lines.drop (i + 1) := by simp
  cases hc : isCommand lines[i] with
  | false => simp [Script.findsEnded, hi, hc]
  | true =>
    rw [hsplit] at h
    simp [Script.findsEnded, hi, hc, h.isActive hc]

/-- No line stops a run that passes all of them… -/
theorem Passes.stop? (h : Passes path number lines r r') : stop? r.session lines = none := by
  refine List.find?_eq_none.mpr fun i hi => ?_
  simp [h.findsEnded (List.mem_range.mp hi)]

/-- …and otherwise it is the first command that finds the session ended. -/
theorem Passes.stop?_append (h : Passes path number before r r') (hc : isCommand line = true)
    (ha : r'.session.isActive = false) :
    Script.stop? r.session (before ++ line :: rest) = some before.length := by
  refine List.find?_range_eq_some.mpr ⟨?_, by simp, fun i hi => ?_⟩
  · simp [Script.findsEnded, hc, h.sessionAfter, ha]
  · simp [findsEnded_append hi, h.findsEnded hi]

theorem Passes.take_readCount (h : Passes path number lines r r') :
    lines.take (readCount r.session lines) = lines := by
  simp only [readCount, h.stop?, List.take_length]

theorem Passes.take_readCount_append (h : Passes path number before r r')
    (hc : isCommand line = true) (ha : r'.session.isActive = false) :
    (before ++ line :: rest).take (readCount r.session (before ++ line :: rest)) =
      before ++ [line] := by
  simp [readCount, h.stop?_append hc ha, List.take_append, List.take_of_length_le]

end Passes

end Runner

/-! ## The account -/

theorem length_take_readCount (s : Session) (lines : List String) :
    (lines.take (readCount s lines)).length = readCount s lines := by
  rw [List.length_take, Nat.min_eq_left]
  unfold readCount
  split
  · next i hi => exact List.mem_range.mp (List.mem_of_find?_eq_some hi)
  · exact Nat.le_refl lines.length

/-- Comments, notes and commands make up the lines. -/
theorem length_eq_kinds (path : String) : ∀ (lines : List String) (number : Nat),
    lines.length = lines.countP isComment + (lineErrors path number lines).length +
      lines.countP isCommand
  | [], _ => rfl
  | line :: rest, number => by
    have ih := length_eq_kinds path rest (number + 1)
    rw [lineErrors_cons]
    rcases line_kinds line with hc | ⟨fault, hf⟩ | hc
    · have hf : fault? line = none := by simp [fault?, hc]
      simp [hc, isCommand_of_isComment hc, hf]
      omega
    · have hc := (fault?_eq_some_iff.mp hf).1
      simp [hc, isCommand_of_fault? hf, hf]
      omega
    · have hcomment := (isCommand_iff.mp hc).1
      simp [hc, hcomment, fault?_of_isCommand hc]
      omega

namespace Runner

section Returning

variable {r : Runner} {lines : List String} (path : String) (h : Returning r.session lines)

include h

/-- A run whose bodies return passes all lines, or a command stops it. -/
theorem passes_or_stops : (∃ r', Passes path 1 lines r r') ∨
    ∃ before line behind r', lines = before ++ line :: behind ∧ Passes path 1 before r r' ∧
      isCommand line = true ∧ r'.session.isActive = false := by
  obtain hp | ⟨before, line, behind, r', result, r'', rfl, hp, hh⟩ :=
    passes_or_halts path lines 1 r
  · exact .inl hp
  · cases hh with
    | stopped hc ha => exact .inr ⟨before, line, behind, r', rfl, hp, hc, ha⟩
    | failed hc ha hx =>
      have hret := h before line behind rfl hc (by rw [hp.sessionAfter]; exact ha)
      rw [hp.sessionAfter] at hret
      obtain ⟨t, ht⟩ := hret.exists_exec ha
      cases hx.symm.trans ht

theorem runLines_ok : (r.runLines lines path).1 = .ok () := by
  obtain ⟨r', hp⟩ | ⟨before, line, behind, r', rfl, hp, hc, ha⟩ := passes_or_stops path h
  · rw [runLines_of_passes hp]
  · rw [runLines_of_halts hp (.stopped hc ha)]

theorem lineCount_runLines :
    (r.runLines lines path).2.lineCount = r.lineCount + readCount r.session lines := by
  obtain ⟨r', hp⟩ | ⟨before, line, behind, r', rfl, hp, hc, ha⟩ := passes_or_stops path h
  · rw [runLines_of_passes hp, ← length_take_readCount, hp.take_readCount]
    exact hp.lineCount
  · rw [runLines_of_halts hp (.stopped hc ha), ← length_take_readCount,
      hp.take_readCount_append hc ha, List.length_append, ← Nat.add_assoc, ← hp.lineCount]
    rfl

theorem errors_runLines : (r.runLines lines path).2.errors.toList =
    r.errors.toList ++ lineErrors path 1 (lines.take (readCount r.session lines)) := by
  obtain ⟨r', hp⟩ | ⟨before, line, behind, r', rfl, hp, hc, ha⟩ := passes_or_stops path h
  · rw [runLines_of_passes hp, hp.take_readCount, hp.errors]
  · -- the line that stops the run is a command, so it leaves no note
    have hline : lineErrors path (1 + before.length) [line] = [] := by
      simp [lineErrors, fault?_of_isCommand hc]
    rw [runLines_of_halts hp (.stopped hc ha), hp.take_readCount_append hc ha,
      lineErrors_append, hline, List.append_nil, hp.errors]

theorem commandCount_runLines :
    ∃ ran, (r.runLines lines path).2.commandCount = r.commandCount + ran ∧
      ran + (stop? r.session lines).toList.length =
        (lines.take (readCount r.session lines)).countP isCommand := by
  obtain ⟨r', hp⟩ | ⟨before, line, behind, r', rfl, hp, hc, ha⟩ := passes_or_stops path h
  · refine ⟨lines.countP isCommand, ?_, ?_⟩
    · rw [runLines_of_passes hp, hp.commandCount]
    · rw [hp.take_readCount, hp.stop?]
      rfl
  · refine ⟨before.countP isCommand, ?_, ?_⟩
    · rw [runLines_of_halts hp (.stopped hc ha), hp.commandCount]
    · rw [hp.take_readCount_append hc ha, hp.stop?_append hc ha, List.countP_append,
        List.countP_singleton, if_pos hc]
      rfl

/-- Other lines in the place of those behind the stop make no difference. -/
theorem runLines_take_append (hstop : (stop? r.session lines).isSome = true)
    (behind : List String) :
    r.runLines (lines.take (readCount r.session lines) ++ behind) path =
      r.runLines lines path := by
  obtain ⟨r', hp⟩ | ⟨before, line, rest, r', rfl, hp, hc, ha⟩ := passes_or_stops path h
  · rw [hp.stop?] at hstop
    cases hstop
  · rw [hp.take_readCount_append hc ha, List.append_assoc, List.singleton_append,
      runLines_of_halts hp (.stopped hc ha), runLines_of_halts hp (.stopped hc ha)]

end Returning

/-- **The account of a run** whose bodies return.  It reads `readCount` lines and never fails; it
counts each of them, notes each that cannot be read and runs each command but the one that stops
it, so that these kinds add up to what it reads; and no line behind has any effect. -/
theorem runLines_account {r : Runner} {lines : List String} (path : String)
    (h : Returning r.session lines) :
    let read := lines.take (readCount r.session lines)
    let stops := (stop? r.session lines).toList.length
    let after := (r.runLines lines path).2
    (r.runLines lines path).1 = .ok () ∧
    after.lineCount = r.lineCount + readCount r.session lines ∧
    after.errors.toList = r.errors.toList ++ lineErrors path 1 read ∧
    (∃ ran, after.commandCount = r.commandCount + ran ∧ ran + stops = read.countP isCommand ∧
      readCount r.session lines =
        read.countP isComment + (lineErrors path 1 read).length + ran + stops) ∧
    ∀ behind, (stop? r.session lines).isSome = true →
      r.runLines (read ++ behind) path = r.runLines lines path := by
  obtain ⟨ran, hran, hstops⟩ := commandCount_runLines path h
  refine ⟨runLines_ok path h, lineCount_runLines path h, errors_runLines path h,
    ⟨ran, hran, hstops, ?_⟩, fun behind hstop => runLines_take_append path h hstop behind⟩
  have hkinds := length_eq_kinds path (lines.take (readCount r.session lines)) 1
  rw [length_take_readCount, ← hstops] at hkinds
  omega

/-- A line that cannot be read is noted before and after the end of the session, and the first
command behind the end stops the run, which then overlooks the broken line at the bottom. -/
theorem runLines_account_stopped :
    let quit : Command CommandBody :=
      ⟨{ name := "quit", usage := "quit", description := "" }, fun _ => .exit 3 (.done 0)⟩
    let s := Session.start "tsh" "guest" "box" ⟨[quit], by simp⟩
    let r : Runner := ⟨s, #[⟨"HangingEscape", 2, "old"⟩], 4, 2⟩
    let lines := ["# note", "'x", "quit", "\"y", "", "quit now", "z'"]
    Returning s lines ∧ (r.runLines lines "new").2.lineCount = 10 ∧
      (r.runLines lines "new").2.commandCount = 3 ∧
      (r.runLines lines "new").2.errors.toList = [⟨"HangingEscape", 2, "old"⟩,
        ⟨"UnterminatedQuote", 2, "new"⟩, ⟨"UnterminatedQuote", 4, "new"⟩] := by
  intro quit s r lines
  have hs : Returning s lines := by
    refine returning_of_bodies (fun c hc args u => ?_) lines
    obtain rfl := List.mem_singleton.mp hc
    exact ⟨0, u.exit 3, rfl⟩
  have hstops : (stop? s lines).toList.length = 1 := by decide
  have hcommands : (lines.take (readCount s lines)).countP isCommand = 2 := by decide
  obtain ⟨-, hlines, herrors, ⟨ran, hran, hstop, -⟩, -⟩ := runLines_account (r := r) "new" hs
  refine ⟨hs, hlines.trans (by decide), ?_, herrors.trans (by decide)⟩
  have hone : ran + 1 = 2 := by rwa [hstops, hcommands] at hstop
  obtain rfl : ran = 1 := by omega
  exact hran

end Runner

end Script

end LineShell
