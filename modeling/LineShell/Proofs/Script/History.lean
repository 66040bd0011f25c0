import LineShell.Proofs.Script.Operations
import LineShell.Proofs.Session.Attempts
import LineShell.Proofs.Session.Declared
import LineShell.Proofs.Session.Printing

/-!
# Proofs/Script/History — the history is a log of what was run

    s ──operation──▸ s₁ ──operation──▸ ⋯ ──▸ t      history of t = history of s ++ logged attempts

Every operation makes some attempts to run lines, and the history grows by the logged ones among
them, in the order in which they are made (`grows_operate`, `grows_operated`).  A script attempts
its commands only, up to the first that finds the session ended or fails.  `history`, which is
logged before it is run, lists all of this with itself at the end (`exec_history`).
-/

namespace LineShell

open Script

/-! ## Scripts -/

namespace Script

/-- The attempts that a script makes in a session: neither comments nor lines that cannot be read
are among them. -/
def attempts : List String → Session → List Attempt
  | [], _ => []
  | line :: rest, s =>
      if isCommand line then
        if s.isActive then
          s.lineAttempts line (Line.tokenize line) ++
            match s.exec line with
            | (.ok (), t) => attempts rest t
            | (.error _, _) => []
        else []
      else attempts rest s

theorem attempts_of_not_isCommand {line : String} (h : isCommand line = false)
    (rest : List String) (s : Session) : attempts (line :: rest) s = attempts rest s := by
  simp [attempts, h]

theorem attempts_of_exec {line : String} {s t : Session} {result : Except LineShell.Failure Unit}
    (hc : isCommand line = true) (ha : s.isActive = true) (hx : s.exec line = (result, t))
    (rest : List String) : attempts (line :: rest) s =
      s.lineAttempts line (Line.tokenize line) ++ if result.isOk then attempts rest t else [] := by
  simp only [attempts, hc, ha, if_true, hx]
  cases result <;> rfl

namespace Runner

variable {path line : String} {number : Nat} {r r' : Runner}

/-- What a passed line attempts stands before what the rest of the script attempts. -/
theorem Pass.grows (h : Pass path number line r r') {rest : List String} {t : Session}
    (ht : r'.session.Grows t (attempts rest r'.session)) :
    r.session.Grows t (attempts (line :: rest) r.session) := by
  cases h with
  | skipped hc =>
    rw [attempts_of_not_isCommand (isCommand_of_isComment hc)]
    exact ht
  | noted hf =>
    rw [attempts_of_not_isCommand (isCommand_of_fault? hf)]
    exact ht
  | ran hc ha hx =>
    have hline := Session.grows_exec r.session line
    rw [hx] at hline
    rw [attempts_of_exec hc ha hx]
    exact hline.trans ht

/-- A line that halts a script is the last that it attempts, if it does. -/
theorem Halt.grows {result : Except LineShell.Failure Unit} (h : Halt line r result r')
    (rest : List String) : r.session.Grows r'.session (attempts (line :: rest) r.session) := by
  cases h with
  | stopped hc ha =>
    simp only [attempts, hc, ha]
    exact .of_history_eq rfl
  | failed hc ha hx =>
    have hline := Session.grows_exec r.session line
    rw [hx] at hline
    rw [attempts_of_exec hc ha hx]
    exact hline.trans (.of_history_eq rfl)

/-- **A script adds the logged ones of its attempts to the history**, wherever it stops. -/
theorem grows_runFrom (path : String) : ∀ (lines : List String) (number : Nat) (r : Runner),
    r.session.Grows (runFrom path number lines r).2.session (attempts lines r.session)
  | [], _, _ => .of_history_eq rfl
  | line :: rest, number, r => by
    obtain ⟨r', hp⟩ | ⟨result, r', hh⟩ := pass_or_halt path number line r
    · rw [hp.runFrom]
      exact hp.grows (grows_runFrom path rest (number + 1) r')
    · rw [hh.runFrom]
      exact hh.grows rest

end Runner

end Script

namespace Session

/-! ## Operations -/

/-- The attempts that an operation makes. -/
def operationAttempts (s : Session) : Operation → List Attempt
  | .exec line => s.lineAttempts line (Line.tokenize line)
  | .execTokens line tokens => s.lineAttempts line (.ok tokens)
  | .dispatch name args => s.callAttempts name args
  | .perform body => body.attempts nestingLimit s
  | .runLines _ lines _ => Script.attempts lines s
  | .register _ | .set _ _ | .unset _ | .reset _ _ _ | .clear | .exit _ => []

/-- The attempts that operations make one after another. -/
def attemptsOver : Session → List Operation → List Attempt
  | _, [] => []
  | s, operation :: rest => s.operationAttempts operation ++ (s.operate operation).attemptsOver rest

/-- **An operation adds the logged ones of its attempts to the history.** -/
theorem grows_operate (s : Session) : ∀ operation : Operation,
    s.Grows (s.operate operation) (s.operationAttempts operation)
  | .exec line => grows_exec s line
  | .execTokens line tokens => grows_execTokens s line tokens
  | .dispatch name args => grows_dispatch s name args
  | .perform body => grows_perform nestingLimit body s
  | .runLines runner lines path => Runner.grows_runFrom path lines 1 { runner with session := s }
  | .register _ | .set _ _ | .unset _ | .reset _ _ _ | .clear | .exit _ => .of_history_eq rfl

/-- …and so do any number of operations. -/
theorem grows_operated : ∀ (operations : List Operation) (s : Session),
    s.Grows (s.operated operations) (s.attemptsOver operations)
  | [], _ => .of_history_eq rfl
  | operation :: rest, s => (grows_operate s operation).trans (grows_operated rest _)

/-! ## What `history` shows -/

/-- Commands stay registered. -/
theorem Changes.mem_commands {s t : Session} (h : Changes s t) {c : Command CommandBody}
    (hc : c ∈ s.commands.commands) : c ∈ t.commands.commands := by
  induction h with
  | refl => exact hc
  | tail _ hchange ih =>
    cases hchange with
    | step hstep => rwa [hstep.commands]
    | register commands =>
      obtain ⟨n, hn⟩ := Registry.exists_commands_register _ commands
      have hmem := List.mem_append_left (commands.take n) ih
      rwa [← hn] at hmem

/-- The line of a history that shows the line of a number. -/
def historyLine (number : Nat) (line : String) : String :=
  Text.padLeft 5 (toString number) ++ "  " ++ line

theorem getElem?_historyLines (lines : List String) (i : Nat) :
    (Builtin.historyLines lines)[i]? = lines[i]?.map (historyLine (i + 1)) := by
  rw [Builtin.historyLines, List.getElem?_map, List.getElem?_zipIdx, Option.map_map, Nat.zero_add]
  rfl

/-- **`history` is logged and then lists the history**, itself included. -/
theorem exec_history {s : Session} (ha : s.isActive = true)
    (hc : Builtin.commands[3] ∈ s.commands.commands) :
    s.exec "history" = (.ok (), ((s.log "history").recordLines
      (Builtin.historyLines (s.log "history").history.toList)).set "?" (.int 0)) := by
  have hcalls : s.Calls (Line.tokenize "history") Builtin.commands[3] [] :=
    ⟨hc, ["history"], by decide, .cons (.plain (by decide)) .nil⟩
  have hcount : Builtin.commands[3].info.Admits 0 := CommandInfo.accepts_iff.mp (by decide)
  have hbody : (Builtin.commands[3].body []).perform nestingLimit (s.log "history") = _ :=
    Action.performWith_recordAll (Builtin.historyLines (s.log "history").history.toList)
      (s.log "history")
  rw [exec_of_calls ha hcalls hcount, hbody]
  rfl

/-- **The history is a faithful log.**  Whatever has been asked of a session, each operation adds to
its history the logged ones of the attempts that it makes, and nothing else.  With the commands
that every session starts with, `history` then shows one normal line for each entry, and a last one
for itself. -/
theorem history_operated (s : Session) (operations : List Operation) :
    let t := s.operated operations
    t.history.toList = s.history.toList ++ logged (s.attemptsOver operations) ∧
    (∀ operation, (t.operate operation).history.toList =
      t.history.toList ++ logged (t.operationAttempts operation)) ∧
    (∀ depth (a : Action), (a.perform depth t).2.history.toList =
      t.history.toList ++ logged (a.attempts depth t)) ∧
    ((∀ c ∈ Builtin.commands, c ∈ s.commands.commands) → t.isActive = true →
      ∃ (lines : List String) (u : Session), t.exec "history" = (.ok (), u) ∧
        u.output.events.toList =
          t.output.events.toList ++ lines.map (fun text => .line ⟨text, false⟩) ∧
        lines.length = t.history.size + 1 ∧
        (∀ i (h : i < t.history.size), lines[i]? = some (historyLine (i + 1) t.history[i])) ∧
        lines[t.history.size]? = some (historyLine (t.history.size + 1) "history")) := by
  intro t
  refine ⟨grows_operated operations s, grows_operate t,
    fun depth a => grows_perform depth a t, fun hbuiltin ha => ?_⟩
  have hc : Builtin.commands[3] ∈ t.commands.commands :=
    (changes_operated operations s).mem_commands (hbuiltin _ (List.getElem_mem _))
  have hlog : (t.log "history").history.toList = t.history.toList ++ ["history"] := by simp [log]
  refine ⟨_, _, exec_history ha hc, events_recordLines _ _, ?_, fun i h => ?_, ?_⟩
  · simp [Builtin.historyLines, log]
  · rw [getElem?_historyLines, hlog, List.getElem?_append_left h]
    simp [h]
  · rw [getElem?_historyLines, hlog]
    simp

/-- A command that runs `history` as a line of another text, then a line that cannot be read and one
that names no command, and fails; after it a blank line and a script with a comment and a line that
cannot be read. -/
theorem history_operated_reentrant :
    let again : Command CommandBody :=
      ⟨{ name := "again", usage := "again", description := "" },
        fun _ => .execTokens "(again)" ["history"] fun _ => .exec "'open" fun _ =>
          .exec "$NONE x" fun _ => .fail (.aborted "enough")⟩
    let s := start "tsh" "guest" "box" ⟨Builtin.commands ++ [again], by decide⟩
    let operations : List Operation := [.exec "again $USER", .exec "  ", .clear,
      .runLines { session := s } ["# no", "declare a=1", "'x"] "s.sh"]
    let t := s.operated operations
    t.history = #["again $USER", "(again)", "$NONE x", "declare a=1"] ∧
      ∃ (lines : List String) (u : Session), t.exec "history" = (.ok (), u) ∧ lines.length = 5 ∧
        lines[4]? = some "    5  history" ∧
        u.output.events.toList =
          t.output.events.toList ++ lines.map (fun text => .line ⟨text, false⟩) := by
  intro again s operations t
  have hbuiltin : ∀ c ∈ Builtin.commands, c ∈ s.commands.commands :=
    fun c hc => List.mem_append_left [again] hc
  have ht : t.history = #["again $USER", "(again)", "$NONE x", "declare a=1"] := by decide +kernel
  obtain ⟨-, -, -, hlist⟩ := history_operated s operations
  obtain ⟨lines, u, hexec, hevents, hlength, -, hlast⟩ := hlist hbuiltin (by decide +kernel)
  have hsize : t.history.size = 4 := by rw [ht]; rfl
  refine ⟨ht, lines, u, hexec, ?_, ?_, hevents⟩
  · rw [hlength, hsize]
  · rw [hsize] at hlast
    exact hlast.trans (by decide)

end Session

end LineShell
