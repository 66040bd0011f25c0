import LineShell.Cli.Run
import LineShell.Proofs.Script.Report
import LineShell.Proofs.Session.Invariant

/-!
# Proofs/Cli/Scripts — what running a script file prints

    lines  ──▸  what its commands record  ++  one report per unreadable line  ++  the statistics

A session of the built-in commands is settled before every line, so none of them fails or ends it,
and a run passes all lines of a script (`exists_passes`).  What is left to the program is to show
what the session has recorded, to report the lines that cannot be read, and to make an exit code of
whether there are any (`respond_run`).
-/

namespace LineShell

namespace Script

/-- A line that is neither a comment nor can be read. -/
def isMalformed (line : String) : Bool := (fault? line).isSome

theorem length_lineErrors (path : String) : ∀ (lines : List String) (number : Nat),
    (lineErrors path number lines).length = lines.countP isMalformed
  | [], _ => rfl
  | line :: rest, number => by
    rw [lineErrors_cons, List.length_append, length_lineErrors path rest (number + 1)]
    cases h : fault? line with
    | none => simp [isMalformed, h]
    | some fault => simp [isMalformed, h, Nat.add_comm]

namespace Runner

/-! ## Scripts of the built-in commands -/

theorem exists_pass {r : Runner} (h : r.session.Settled) (path : String) (number : Nat)
    (line : String) : ∃ r', Pass path number line r r' ∧ r'.session.Settled := by
  obtain ⟨hok, hs⟩ := h.exec line
  obtain ⟨r', hp⟩ | ⟨result, r', hh⟩ := pass_or_halt path number line r
  · refine ⟨r', hp, ?_⟩
    cases hp with
    | skipped _ | noted _ => exact h
    | ran _ _ hx => rwa [hx] at hs
  · cases hh with
    | stopped _ ha => simp [h.active] at ha
    | failed _ _ hx => rw [hx] at hok; cases hok

/-- **A run of the built-in commands passes all lines.** -/
theorem exists_passes (path : String) : ∀ (lines : List String) (number : Nat) {r : Runner},
    r.session.Settled → ∃ r', Passes path number lines r r'
  | [], _, r, _ => ⟨r, .nil⟩
  | line :: rest, number, r, h => by
    obtain ⟨r', hp, hs⟩ := exists_pass h path number line
    obtain ⟨r'', hps⟩ := exists_passes path rest (number + 1) hs
    exact ⟨r'', .cons hp hps⟩

/-- The commands among the passed lines have been typed, each of them. -/
theorem Passes.typed {path : String} {number : Nat} {lines : List String} {r r' : Runner}
    (h : Passes path number lines r r') :
    r'.session = r.session.typed (lines.filter isCommand) := by
  induction h with
  | nil => rfl
  | cons hp _ ih =>
    cases hp with
    | skipped hc => simpa [isCommand_of_isComment hc] using ih
    | noted hf => simpa [isCommand_of_fault? hf] using ih
    | ran hc _ hx =>
      rw [List.filter_cons_of_pos hc, Session.typed_cons, hx]
      exact ih

end Runner

end Script

/-! ## The ending of a run -/

namespace Cli

open Script Script.Runner

/-- A run prints what the session has recorded, the reports and the statistics, and its exit code
tells whether there is a report. -/
theorem runScript_of_passes {m : Machine} {path : String} {settings : Settings}
    {lines : List String} {after : Runner} (hread : readLines m.read path = .ok lines)
    (hp : Passes path 1 lines { session := newSession settings } after) :
    runScript m path settings = ⟨if after.errors.isEmpty then 0 else 1,
      .ofOutput after.session.output ++ .errLines after.reports ++ .out (stats after)⟩ := by
  have hrun := runFile_of_ok hread (runLines_of_passes hp)
  cases he : after.errors.isEmpty with
  | true =>
    have hreports : after.reports = [] := by
      obtain he : after.errors = #[] := by simpa using he
      simp [reports, he]
    have hnone : Transcript.errLines after.reports = {} := by rw [hreports]; rfl
    simp only [runScript, hrun, verdict, he, if_true, hnone, Transcript.append_empty]
  | false => simp only [runScript, hrun, verdict, he, Bool.false_eq_true, if_false]

theorem readLines_of_decode {read : Files.Reader} {path : String} {bytes : List UInt8}
    {content : List Char} (hnul : '\x00' ∉ path.toList) (hfile : read path = .ok bytes)
    (htext : Text.Utf8.decode bytes = .ok content) :
    readLines read path = .ok (linesOf content) := by
  simp [readLines, hnul, hfile, htext]

/-- A request to run a script with settings that can be loaded runs it. -/
theorem respond_of_run {m : Machine} {args : List String} {config : Option String}
    {path : String} {settings : Settings}
    (hrequest : Request.parse args = .ok (.run config (some path)))
    (hsettings : settingsOf m config = .ok settings) (hpath : path ≠ "") (input : List String)
    (inputEnd : Repl.InputEnd) : respond m args input inputEnd = runScript m path settings := by
  simp only [respond, hrequest, answer, Option.getD_some, hsettings]

section Fresh

variable {path : String} {lines : List String} {s : Session} {after : Runner}
  (hp : Passes path 1 lines { session := s } after)

include hp

theorem size_errors_of_passes : after.errors.size = lines.countP isMalformed := by
  rw [← Array.length_toList, hp.errors, ← length_lineErrors path lines 1]
  rfl

/-- The statistics of a script that has passed are those of its lines. -/
theorem stats_of_passes : stats after =
    statLine lines.length "Lines" ++ statLine (lines.countP isCommand) "Commands" ++
      statLine (lines.countP isMalformed) "Errors" := by
  rw [stats, hp.lineCount, hp.commandCount, size_errors_of_passes hp, Nat.zero_add, Nat.zero_add]

theorem isEmpty_errors_of_passes : after.errors.isEmpty = !lines.any isMalformed := by
  have hsize := size_errors_of_passes hp
  cases hany : lines.any isMalformed with
  | true =>
    obtain ⟨line, hmem, hline⟩ := List.any_eq_true.mp hany
    have hpos : 0 < lines.countP isMalformed := List.countP_pos_iff.mpr ⟨line, hmem, hline⟩
    simp only [Array.isEmpty, Bool.not_true, decide_eq_false_iff_not]
    omega
  | false =>
    have hzero : lines.countP isMalformed = 0 :=
      List.countP_eq_zero.mpr fun line hmem => by simpa using List.any_eq_false.mp hany line hmem
    simp only [Array.isEmpty, Bool.not_false, decide_eq_true_eq]
    omega

end Fresh

end Cli

end LineShell
