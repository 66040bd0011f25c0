import LineShell.Proofs.Script.Operations

/-!
# Proofs/Script/Ended — a session that has ended

    ended ──change──▸ ended ──change──▸ ⋯

Nothing brings a session back: no change takes its exit code away, and none adds to its history
(`Changes.ended`).  From then on every line is refused, the lines that a command body runs included:
a body does what it does when it is told so each time (`Action.perform_iff_does_refused`).  A script
stops at its first command and leaves the session alone.  `operated_of_ended` puts this together
for any sequence of operations.
-/

namespace LineShell

open Session

namespace Session

/-- A change does not revive a session, and what has ended keeps its history. -/
theorem Change.ended {s t : Session} (h : Change s t) (hs : s.isActive = false) :
    t.isActive = false ∧ t.history = s.history := by
  cases h with
  | step hstep =>
    cases hstep with
    | exit code => exact ⟨rfl, rfl⟩
    | log line ha => simp [hs] at ha
    | record | recordError | clear | set | unset | reset => exact ⟨hs, rfl⟩
  | register commands => exact ⟨hs, rfl⟩

/-- …and neither does any number of changes. -/
theorem Changes.ended {s t : Session} (h : Changes s t) (hs : s.isActive = false) :
    t.isActive = false ∧ t.history = s.history := by
  induction h with
  | refl => exact ⟨hs, rfl⟩
  | tail _ hchange ih =>
    obtain ⟨ha, hh⟩ := hchange.ended ih.1
    exact ⟨ha, hh.trans ih.2⟩

section Refused

variable {perform : Action → Session → Outcome Int} {s : Session} (h : s.isActive = false)

include h

theorem execTokensWith_of_ended (line : String) (tokens : List String) :
    s.execTokensWith perform line tokens = (.error .inactive, s) :=
  execTokensWith_eq_iff.mpr (.inactive h)

theorem execWith_of_ended (line : String) : s.execWith perform line = (.error .inactive, s) :=
  execWith_eq_iff.mpr (.inactive h)

end Refused

end Session

/-! ## Bodies -/

namespace Action

/-- The body as it goes on when each line that it runs is refused because the session has ended. -/
def refused : Action → Action
  | done code => .done code
  | fail cause => .fail cause
  | inspect next => .inspect fun view => (next view).refused
  | record line next => .record line next.refused
  | clear next => .clear next.refused
  | set name value next => .set name value next.refused
  | unset name next => .unset name next.refused
  | reset shell user host next => .reset shell user host next.refused
  | exit code next => .exit code next.refused
  | exec _ next | execTokens _ _ next => (next (some .inactive)).refused

theorem runsNoLine_refused (a : Action) : a.refused.RunsNoLine := by
  induction a with
  | done | fail => trivial
  | inspect next ih => exact ih
  | record _ _ ih | clear _ ih | set _ _ _ ih | unset _ _ ih | reset _ _ _ _ ih | exit _ _ ih =>
    exact ih
  | exec _ next ih | execTokens _ _ next ih => exact ih (some .inactive)

theorem performWith_refused {perform : Action → Session → Outcome Int} (a : Action) {s : Session}
    (h : s.isActive = false) : a.performWith perform s = a.refused.performWith perform s := by
  induction a generalizing s with
  | done | fail => rfl
  | inspect next ih => exact ih s.view h
  | record line next ih =>
    obtain ⟨text, isError⟩ := line
    cases isError with
    | false => exact ih (s := s.record text) h
    | true => exact ih (s := s.recordError text) h
  | clear next ih => exact ih (s := s.clear) h
  | set name value next ih => exact ih (s := s.set name value) h
  | unset name next ih => exact ih (s := s.unset name) h
  | reset shell user host next ih => exact ih (s := s.reset shell user host) h
  | exit code next ih => exact ih (s := s.exit code) rfl
  | exec line next ih =>
    simp only [performWith, execWith_of_ended h, refused]
    exact ih (some .inactive) h
  | execTokens line tokens next ih =>
    simp only [performWith, execTokensWith_of_ended h, refused]
    exact ih (some .inactive) h

/-- **In a session that has ended a body does what it does when its lines are refused.** -/
theorem perform_iff_does_refused {s t : Session} (h : s.isActive = false) (depth : Nat)
    (a : Action) (result : Except Failure Int) :
    a.perform (depth + 1) s = (result, t) ↔ a.refused.Does s result t := by
  rw [perform, performWith_refused a h]
  exact performWith_eq_iff_does a.runsNoLine_refused

end Action

/-! ## Scripts -/

namespace Script.Runner

variable {path line : String} {number : Nat} {lines : List String} {r r' : Runner}

theorem Pass.ended (h : Pass path number line r r') (hr : r.session.isActive = false) :
    r'.session = r.session ∧ r'.commandCount = r.commandCount := by
  cases h with
  | skipped _ | noted _ => exact ⟨rfl, rfl⟩
  | ran _ ha _ => simp [hr] at ha

theorem Passes.ended (h : Passes path number lines r r') (hr : r.session.isActive = false) :
    r'.session = r.session ∧ r'.commandCount = r.commandCount := by
  induction h with
  | nil => exact ⟨rfl, rfl⟩
  | cons hp _ ih =>
    obtain ⟨hs, hc⟩ := hp.ended hr
    obtain ⟨hs', hc'⟩ := ih (hs ▸ hr)
    exact ⟨hs'.trans hs, hc'.trans hc⟩

/-- **A script runs no command in a session that has ended**, and it does not fail. -/
theorem runLines_of_ended (hr : r.session.isActive = false) (lines : List String)
    (path : String) : ∃ after, r.runLines lines path = (.ok (), after) ∧
      after.session = r.session ∧ after.commandCount = r.commandCount := by
  obtain ⟨r', hp⟩ | ⟨before, line, behind, r', result, r'', rfl, hp, hh⟩ :=
    passes_or_halts path lines 1 r
  · exact ⟨r', runLines_of_passes hp, hp.ended hr⟩
  · have hended := hp.ended hr
    rw [runLines_of_halts hp hh]
    cases hh with
    | stopped _ _ => exact ⟨_, rfl, hended⟩
    | failed _ ha _ => simp [hended.1, hr] at ha

end Script.Runner

/-! ## Any operations -/

namespace Session

/-- **A session that has ended never revives and never runs another line.**  Whatever is asked of
it, it stays ended with the same history; it refuses every line and is left as it was, lines that
bodies run are refused as well, and a script runs no command and does not fail. -/
theorem operated_of_ended {s : Session} {code : Int} (h : s.exitCode = some code)
    (operations : List Operation) :
    let t := s.operated operations
    (t.isActive = false ∧ t.history = s.history) ∧
    (∀ line, t.exec line = (.error .inactive, t)) ∧
    (∀ line tokens, t.execTokens line tokens = (.error .inactive, t)) ∧
    (∀ depth (a : Action) result u,
      a.perform (depth + 1) t = (result, u) ↔ a.refused.Does t result u) ∧
    ∀ (r : Script.Runner) lines path, r.session = t →
      ∃ after, r.runLines lines path = (.ok (), after) ∧ after.session = t ∧
        after.commandCount = r.commandCount := by
  intro t
  have hs : s.isActive = false := by simp [isActive, h]
  obtain ⟨ht, hhistory⟩ := (changes_operated operations s).ended hs
  refine ⟨⟨ht, hhistory⟩, execWith_of_ended ht, execTokensWith_of_ended ht,
    fun depth a result u => Action.perform_iff_does_refused ht depth a result,
    fun r lines path hr => ?_⟩
  rw [← hr]
  exact Script.Runner.runLines_of_ended (hr ▸ ht) lines path

/-- A command that ends the session once more and then runs a line does not get it to run. -/
theorem operated_of_ended_reentrant :
    let bye : Command CommandBody :=
      ⟨{ name := "bye", usage := "bye", description := "" },
        fun _ => .exit 0 (.execAll ["bye"] (.done 0))⟩
    let s := (start "tsh" "guest" "box" ⟨[bye], by simp⟩).exit 3
    let operations : List Operation := [.exec "bye", .dispatch "bye" [],
      .reset "sh" "root" "box", .clear, .register Builtin.commands,
      .runLines { session := s } ["'x", "bye"] "s.sh", .exit 0]
    let t := s.operated operations
    s.exitCode = some 3 ∧ t.isActive = false ∧ t.history = #[] ∧
      t.exec "man" = (.error .inactive, t) := by
  intro bye s operations t
  obtain ⟨⟨ha, hh⟩, hexec, -⟩ := operated_of_ended (s := s) rfl operations
  exact ⟨rfl, ha, hh, hexec "man"⟩

end Session

end LineShell
