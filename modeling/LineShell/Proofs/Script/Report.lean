import Mathlib.Logic.Relation
import LineShell.Proofs.Script.Account

/-!
# Proofs/Script/Report — what running a script file reports

    notes of earlier runs  ++  unreadable lines of this file  ──▸  failure, reports

A runner keeps its notes over all its runs, and the end of a file looks at all of them.  So a run of
a file tells about the lines of that file when no earlier run has left a note, and never otherwise
(`runFile_tells_iff`): after a broken script even a flawless one fails (`runFile_flawless_fails`),
and so does every later one (`runFile_of_called`).
-/

namespace LineShell.Script.Runner

/-- The notes on the lines of a script that a run from this session cannot read. -/
def found (s : Session) (path : String) (lines : List String) : List LineError :=
  lineErrors path 1 (lines.take (readCount s lines))

/-- **The outcome of a run of a file tells about these notes**: the run fails for malformed lines
if and only if there are any, with their number, and prints them in order. -/
structure Tells (notes : List LineError) (outcome : Except Failure Unit × Runner) : Prop where
  fails : (∃ count, outcome.1 = .error (.malformed count)) ↔ notes ≠ []
  counts : ∀ count, outcome.1 = .error (.malformed count) → count = notes.length
  prints : reported outcome = notes.map LineError.report

/-! ## The end of a file -/

/-- What the end of a file makes of all notes of the runner. -/
def verdict (r : Runner) : Except Failure Unit :=
  if r.errors.isEmpty then .ok () else .error (.malformed r.errors.size)

/-- The verdict tells about all notes of the runner. -/
theorem tells_verdict (r : Runner) : Tells r.errors.toList (r.verdict, r) := by
  unfold verdict
  cases hr : r.errors.isEmpty with
  | true =>
    obtain hr : r.errors.toList = [] := by simpa using hr
    constructor <;> simp [reported, hr]
  | false =>
    obtain hr : r.errors.toList ≠ [] := by simpa using hr
    constructor <;> simp [reported, reports, hr]

/-- One outcome does not tell about two lists of notes of different lengths. -/
theorem Tells.length_eq {xs ys : List LineError} {outcome : Except Failure Unit × Runner}
    (hx : Tells xs outcome) (hy : Tells ys outcome) : xs.length = ys.length := by
  have hprints := congrArg List.length (hx.prints.symm.trans hy.prints)
  rwa [List.length_map, List.length_map] at hprints

theorem runFile_of_unreadable {r : Runner} {read : Files.Reader} {path : String}
    {failure : Failure} (h : readLines read path = .error failure) :
    r.runFile read path = (.error failure, r) := by
  simp only [runFile, h]

theorem runFile_of_error {r after : Runner} {read : Files.Reader} {path : String}
    {lines : List String} {failure : LineShell.Failure} (h : readLines read path = .ok lines)
    (hrun : r.runLines lines path = (.error failure, after)) :
    r.runFile read path = (.error (.session failure), after) := by
  simp only [runFile, h, hrun]

theorem runFile_of_ok {r after : Runner} {read : Files.Reader} {path : String}
    {lines : List String} (h : readLines read path = .ok lines)
    (hrun : r.runLines lines path = (.ok (), after)) :
    r.runFile read path = (after.verdict, after) := by
  simp only [runFile, h, hrun, verdict]
  split <;> rfl

/-- A run of a file leaves the runner as a run of its lines does. -/
theorem runFile_snd (r : Runner) (read : Files.Reader) (path : String) :
    (r.runFile read path).2 = r ∨
      ∃ lines, (r.runFile read path).2 = (r.runLines lines path).2 := by
  cases h : readLines read path with
  | error failure => exact .inl (by rw [runFile_of_unreadable h])
  | ok lines =>
    refine .inr ⟨lines, ?_⟩
    rcases hrun : r.runLines lines path with ⟨failure | _, after⟩
    · rw [runFile_of_error h hrun]
    · rw [runFile_of_ok h hrun]

/-! ## Notes outlive a call -/

/-- A call on a runner, of whatever outcome; the files may be others at every call. -/
inductive Called : Runner → Runner → Prop
  | lines {r : Runner} (lines : List String) (path : String) : Called r (r.runLines lines path).2
  | file {r : Runner} (read : Files.Reader) (path : String) : Called r (r.runFile read path).2

theorem Halt.errors {line : String} {r r' : Runner} {result : Except LineShell.Failure Unit}
    (h : Halt line r result r') : r'.errors = r.errors := by
  cases h <;> rfl

theorem prefix_errors_runLines (r : Runner) (lines : List String) (path : String) :
    r.errors.toList <+: (r.runLines lines path).2.errors.toList := by
  obtain ⟨r', hp⟩ | ⟨before, line, behind, r', result, r'', rfl, hp, hh⟩ :=
    passes_or_halts path lines 1 r
  · rw [runLines_of_passes hp, hp.errors]
    exact List.prefix_append _ _
  · rw [runLines_of_halts hp hh, hh.errors, hp.errors]
    exact List.prefix_append _ _

/-- A call keeps the notes… -/
theorem Called.prefix_errors {r r' : Runner} (h : Called r r') :
    r.errors.toList <+: r'.errors.toList := by
  cases h with
  | lines lines path => exact prefix_errors_runLines r lines path
  | file read path =>
    obtain hr | ⟨lines, hr⟩ := runFile_snd r read path
    · exact ⟨[], by rw [hr, List.append_nil]⟩
    · rw [hr]
      exact prefix_errors_runLines r lines path

/-- …and so does any number of calls. -/
theorem prefix_errors_of_called {r r' : Runner} (h : Relation.ReflTransGen Called r r') :
    r.errors.toList <+: r'.errors.toList := by
  induction h with
  | refl => exact List.prefix_refl _
  | tail _ hcall ih => exact ih.trans hcall.prefix_errors

/-! ## What a run of a file tells about -/

section File

variable {r : Runner} {read : Files.Reader} {path : String} {lines : List String}

/-- A run of a file tells about the notes of all runs up to its end. -/
theorem tells_runFile (hread : readLines read path = .ok lines) (h : Returning r.session lines) :
    Tells (r.errors.toList ++ found r.session path lines) (r.runFile read path) := by
  have hok := runLines_ok path h
  have herrors := errors_runLines path h
  rcases hrun : r.runLines lines path with ⟨result, after⟩
  rw [hrun] at hok herrors
  obtain rfl : result = .ok () := hok
  rw [runFile_of_ok hread hrun, found, ← herrors]
  exact tells_verdict after

/-- After a note every later run of a file fails, whatever the file holds and whatever has been
called in between. -/
theorem runFile_of_called {r₀ : Runner} (hnote : r₀.errors ≠ #[])
    (hcalled : Relation.ReflTransGen Called r₀ r) (hread : readLines read path = .ok lines)
    (h : Returning r.session lines) :
    ∃ count, r₀.errors.size ≤ count ∧ (r.runFile read path).1 = .error (.malformed count) := by
  have htells := tells_runFile hread h
  have hlength := (prefix_errors_of_called hcalled).length_le
  rw [Array.length_toList, Array.length_toList] at hlength
  have hsize : r₀.errors.size ≠ 0 := fun hzero => hnote (Array.eq_empty_of_size_eq_zero hzero)
  obtain ⟨count, hcount⟩ := htells.fails.mpr fun hnil => by
    have hnone := congrArg List.length hnil
    rw [List.length_append, Array.length_toList, List.length_nil] at hnone
    omega
  refine ⟨count, ?_, hcount⟩
  rw [htells.counts count hcount, List.length_append, Array.length_toList]
  omega

end File

/-- **A run of a file tells about the lines of that file** that it cannot read if and only if no
earlier run has left a note: it always tells about the notes of the earlier runs as well. -/
theorem runFile_tells_iff {r : Runner} {read : Files.Reader} {path : String}
    {lines : List String} (hread : readLines read path = .ok lines)
    (h : Returning r.session lines) :
    Tells (r.errors.toList ++ found r.session path lines) (r.runFile read path) ∧
      (Tells (found r.session path lines) (r.runFile read path) ↔ r.errors = #[]) := by
  have hall := tells_runFile hread h
  refine ⟨hall, fun hfound => ?_, fun hnone => ?_⟩
  · have hlength := hall.length_eq hfound
    rw [List.length_append, Array.length_toList] at hlength
    exact Array.eq_empty_of_size_eq_zero (by omega)
  · rwa [hnone, List.nil_append] at hall

/-- A fresh runner tells about both broken lines of a script. -/
theorem runFile_tells_fresh :
    let r : Runner := { session := Session.start "tsh" "guest" "box" Builtin.registry }
    let read : Files.Reader := fun _ => .ok "'x\ndeclare A=1\nB\\".toUTF8.toList
    let lines := ["'x", "declare A=1", "B\\"]
    readLines read "s.sh" = .ok lines ∧ Returning r.session lines ∧
      Tells [⟨"UnterminatedQuote", 1, "s.sh"⟩, ⟨"HangingEscape", 3, "s.sh"⟩]
        (r.runFile read "s.sh") := by
  intro r read lines
  have hread : readLines read "s.sh" = .ok lines := by decide +kernel
  have hr : Returning r.session lines := returning_builtin rfl lines
  have hfound : found r.session "s.sh" lines =
      [⟨"UnterminatedQuote", 1, "s.sh"⟩, ⟨"HangingEscape", 3, "s.sh"⟩] := by decide +kernel
  exact ⟨hread, hr, hfound ▸ (runFile_tells_iff hread hr).2.mpr rfl⟩

/-- After a broken line has been typed, a flawless file fails for one malformed line and prints
where the broken one was. -/
theorem runFile_flawless_fails :
    let r : Runner := { session := Session.start "tsh" "guest" "box" Builtin.registry }
    let after := (r.runLines ["'x"] "<input>").2
    let read : Files.Reader := fun _ => .ok "declare A=1\n".toUTF8.toList
    let lines := ["declare A=1", ""]
    readLines read "s.sh" = .ok lines ∧ Returning after.session lines ∧
      found after.session "s.sh" lines = [] ∧
      (after.runFile read "s.sh").1 = .error (.malformed 1) ∧
      reported (after.runFile read "s.sh") = ["<input>:1: error.UnterminatedQuote"] ∧
      ¬ Tells (found after.session "s.sh" lines) (after.runFile read "s.sh") := by
  intro r after read lines
  have hfound : found after.session "s.sh" lines = [] := by decide +kernel
  have hresult : (after.runFile read "s.sh").1 = .error (.malformed 1) := by decide +kernel
  refine ⟨by decide +kernel, returning_builtin rfl lines, hfound, hresult, by decide +kernel,
    fun htells => ?_⟩
  exact htells.fails.mp ⟨1, hresult⟩ hfound

end LineShell.Script.Runner
