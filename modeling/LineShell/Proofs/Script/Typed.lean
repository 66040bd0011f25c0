import LineShell.Proofs.Script.Turns

/-!
# Proofs/Script/Typed — a script does what one would do by hand

    runLines lines  ═  typing the commands among the lines, one after another

A runner reads a line before it looks whether the session lasts, and a session looks first and
reads then.  The two orders differ for lines that cannot be read only, and such lines never reach
the session of a runner; so a script and the same commands typed by hand leave the same session,
and fail alike (`runLines_eq_execEach`).
-/

namespace LineShell.Script.Runner

/-- **Running a script is typing its commands**: the lines that are no comments and can be read, in
order, up to the first that fails or finds that the session has ended.  A failure comes from the
same line of both, after the same lines without a failure. -/
theorem runLines_eq_execEach (r : Runner) (lines : List String) (path : String) :
    ((r.runLines lines path).1, (r.runLines lines path).2.session) =
      r.session.execEach (lines.filter isCommand) ∧
    ∀ failure, (r.runLines lines path).1 = .error failure →
      ∃ before line behind s, lines = before ++ line :: behind ∧ isCommand line = true ∧
        (r.runLines lines path).2.lineCount = r.lineCount + before.length + 1 ∧
        r.session.execEach (before.filter isCommand) = (.ok (), s) ∧ s.isActive = true ∧
        s.exec line = (.error failure, (r.runLines lines path).2.session) := by
  obtain ⟨r', hp⟩ | ⟨before, line, behind, r', result, r'', rfl, hp, hh⟩ :=
    passes_or_halts path lines 1 r
  · rw [runLines_of_passes hp]
    exact ⟨hp.execEach.symm, fun failure hf => by cases hf⟩
  · rw [runLines_of_halts hp hh, List.filter_append,
      Session.execEach_append_of_ok hp.execEach]
    cases hh with
    | stopped hc ha =>
      rw [Session.execEach_of_not_isActive ha]
      exact ⟨rfl, fun failure hf => by cases hf⟩
    | failed hc ha hx =>
      rw [List.filter_cons_of_pos hc, Session.execEach_cons_of_error ha hx]
      refine ⟨rfl, fun failure hf => ?_⟩
      obtain rfl := Except.error.inj hf
      exact ⟨before, line, behind, r'.session, rfl, hc, by rw [hp.lineCount], hp.execEach, ha, hx⟩

/-- A command that ends the session and then runs a line fails on the third line of a script, and
when its line is typed. -/
theorem runLines_eq_execEach_reentrant :
    let bye : Command CommandBody :=
      ⟨{ name := "bye", usage := "bye", description := "" },
        fun _ => .exit 2 (.execAll ["man"] (.done 0))⟩
    let s := Session.start "tsh" "guest" "box" ⟨[bye], by simp⟩
    let r : Runner := { session := s }
    (r.runLines ["# note", "'x", "bye", "man"] "s").1 = .error .inactive ∧
      (s.execEach ["bye", "man"]).1 = .error .inactive ∧
      (r.runLines ["# note", "'x", "bye", "man"] "s").2.session =
        (s.execEach ["bye", "man"]).2 := by
  intro bye s r
  have hrun := (runLines_eq_execEach r ["# note", "'x", "bye", "man"] "s").1
  have hcommands : ["# note", "'x", "bye", "man"].filter isCommand = ["bye", "man"] := by decide
  have hfail : (s.execEach ["bye", "man"]).1 = .error .inactive := rfl
  rw [hcommands] at hrun
  exact ⟨(congrArg Prod.fst hrun).trans hfail, hfail, congrArg Prod.snd hrun⟩

end LineShell.Script.Runner
