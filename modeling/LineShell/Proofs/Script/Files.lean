import LineShell.Proofs.Script.Report
import LineShell.Proofs.Text.LineEnds
import LineShell.Proofs.Text.Utf8

/-!
# Proofs/Script/Files — a script file is read as a whole

    path ──read──▸ bytes ──decode──▸ text ──cut at line ends──▸ lines ──run──▸ ⋯

The lines of a file are there before the first of them runs (`readLines_eq_ok_iff`), so a file that
cannot be read or is no text fails and leaves runner and session as they were, whatever stands in
front of the bytes at fault.  A file that is a text is run as its lines are, numbers included,
whichever line end it uses throughout (`runFile_all_or_nothing`).
-/

namespace LineShell.Script.Runner

open Text (LineEnd)

variable {read : Files.Reader} {path : String}

/-! ## Reading -/

theorem readLines_of_nul (h : '\x00' ∈ path.toList) :
    readLines read path = .error .nulInPath := by
  simp [readLines, h]

theorem readLines_of_fault (hnul : '\x00' ∉ path.toList) {fault : Files.Fault}
    (h : read path = .error fault) : readLines read path = .error (.unreadable path fault) := by
  simp [readLines, hnul, h]

/-- Bytes that encode no text are refused, wherever they are at fault. -/
theorem readLines_of_notText (hnul : '\x00' ∉ path.toList) {bytes : List UInt8}
    (hfile : read path = .ok bytes) (h : ∀ cs, bytes ≠ Text.Utf8.encode cs) :
    ∃ fault, readLines read path = .error (.notText fault) := by
  cases hd : Text.Utf8.decode bytes with
  | ok cs => exact absurd (Text.Utf8.decode_eq_ok_iff.mp hd) (h cs)
  | error fault => exact ⟨fault, by simp [readLines, hnul, hfile, hd]⟩

theorem readLines_of_text (hnul : '\x00' ∉ path.toList) {cs : List Char}
    (hfile : read path = .ok (Text.Utf8.encode cs)) :
    readLines read path = .ok (linesOf cs) := by
  simp [readLines, hnul, hfile, Text.Utf8.decode_encode]

/-- **The lines of a file are read if and only if the path has a file that is a text.** -/
theorem readLines_eq_ok_iff {lines : List String} : readLines read path = .ok lines ↔
    '\x00' ∉ path.toList ∧ ∃ cs, read path = .ok (Text.Utf8.encode cs) ∧ lines = linesOf cs := by
  constructor
  · intro h
    by_cases hnul : '\x00' ∈ path.toList
    · cases (readLines_of_nul hnul).symm.trans h
    · refine ⟨hnul, ?_⟩
      cases hfile : read path with
      | error fault => cases (readLines_of_fault hnul hfile).symm.trans h
      | ok bytes =>
        by_cases htext : ∃ cs, bytes = Text.Utf8.encode cs
        · obtain ⟨cs, rfl⟩ := htext
          exact ⟨cs, rfl, Except.ok.inj (h.symm.trans (readLines_of_text hnul hfile))⟩
        · obtain ⟨fault, hfault⟩ := readLines_of_notText hnul hfile (not_exists.mp htext)
          cases hfault.symm.trans h
  · rintro ⟨hnul, cs, hfile, rfl⟩
    exact readLines_of_text hnul hfile

/-- Lines that were written with any line end are read as they are. -/
theorem linesOf_join (e : LineEnd) {lines : List String} (hne : lines ≠ [])
    (hn : ∀ line ∈ lines, '\n' ∉ line.toList) (hr : ∀ line ∈ lines, '\r' ∉ line.toList) :
    linesOf (e.join lines) = lines := Text.pieces_join e hne hn hr

/-! ## Running -/

theorem verdict_ne_session (r : Runner) (failure : LineShell.Failure) :
    r.verdict ≠ .error (.session failure) := by
  unfold verdict
  split <;> simp

/-- **A file whose lines can be read does what its lines do**: it leaves the same runner, and it
fails with a failure of the session exactly when they do. -/
theorem runFile_of_readLines {lines : List String} (h : readLines read path = .ok lines)
    (r : Runner) : (r.runFile read path).2 = (r.runLines lines path).2 ∧
      ∀ failure, (r.runFile read path).1 = .error (.session failure) ↔
        (r.runLines lines path).1 = .error failure := by
  rcases hrun : r.runLines lines path with ⟨failure | _, after⟩
  · rw [runFile_of_error h hrun]
    refine ⟨rfl, fun failure' => ?_⟩
    simp
  · rw [runFile_of_ok h hrun]
    refine ⟨rfl, fun failure => ?_⟩
    simp [verdict_ne_session]

/-- **A script file is run as a whole or not at all.**  When the path cannot be looked up, when
there is no file to be read, and when the bytes of the file encode no text, be it in its last line,
the run fails and leaves the runner with its session, its counts and its notes as it was.  When the
bytes encode lines with one line end throughout, the run leaves what a run of these lines leaves,
and fails for the session exactly when that does. -/
theorem runFile_all_or_nothing (r : Runner) (read : Files.Reader) (path : String) :
    ('\x00' ∈ path.toList → r.runFile read path = (.error .nulInPath, r)) ∧
    ('\x00' ∉ path.toList →
      (∀ fault, read path = .error fault →
        r.runFile read path = (.error (.unreadable path fault), r)) ∧
      (∀ bytes, read path = .ok bytes → (∀ cs, bytes ≠ Text.Utf8.encode cs) →
        ∃ fault, r.runFile read path = (.error (.notText fault), r)) ∧
      ∀ (lines : List String) (e : LineEnd), lines ≠ [] →
        (∀ line ∈ lines, '\n' ∉ line.toList) → (∀ line ∈ lines, '\r' ∉ line.toList) →
        read path = .ok (Text.Utf8.encode (e.join lines)) →
        (r.runFile read path).2 = (r.runLines lines path).2 ∧
        ∀ failure, (r.runFile read path).1 = .error (.session failure) ↔
          (r.runLines lines path).1 = .error failure) := by
  refine ⟨fun hnul => runFile_of_unreadable (readLines_of_nul hnul), fun hnul => ⟨?_, ?_, ?_⟩⟩
  · intro fault hfault
    exact runFile_of_unreadable (readLines_of_fault hnul hfault)
  · intro bytes hfile htext
    obtain ⟨fault, hfault⟩ := readLines_of_notText hnul hfile htext
    exact ⟨fault, runFile_of_unreadable hfault⟩
  · intro lines e hne hn hr hfile
    have hread := readLines_of_text hnul hfile
    rw [linesOf_join e hne hn hr] at hread
    exact runFile_of_readLines hread r

/-- A file with carriage returns between its lines, the first of which is not ASCII, does what its
lines do, and a byte that starts no character behind the same lines keeps all of them from
running. -/
theorem runFile_all_or_nothing_returns :
    let r : Runner := ⟨Session.start "tsh" "guest" "box" Builtin.registry,
      #[⟨"HangingEscape", 2, "old"⟩], 4, 2⟩
    let lines := ["declare A=é", "'x", "", "unset A"]
    let bytes := Text.Utf8.encode (LineEnd.carriageReturn.join lines)
    let good : Files.Reader := fun _ => .ok bytes
    let bad : Files.Reader := fun _ => .ok (bytes ++ [0x80])
    (r.runFile good "s.sh").2 = (r.runLines lines "s.sh").2 ∧
      (r.runFile good "s.sh").2.errors.toList =
        [⟨"HangingEscape", 2, "old"⟩, ⟨"UnterminatedQuote", 2, "s.sh"⟩] ∧
      ∃ fault, r.runFile bad "s.sh" = (.error (.notText fault), r) := by
  intro r lines bytes good bad
  have hgood := (runFile_all_or_nothing r good "s.sh").2 (by decide)
  have hbad := (runFile_all_or_nothing r bad "s.sh").2 (by decide)
  have hrun := (hgood.2.2 lines .carriageReturn (by decide) (by decide) (by decide) rfl).1
  refine ⟨hrun, ?_, hbad.2.1 (bytes ++ [0x80]) rfl fun cs hcs => ?_⟩
  · rw [hrun]
    decide +kernel
  · have hfault : Text.Utf8.decode (bytes ++ [0x80]) = .error ⟨0x80, 24, 1, .invalidStart⟩ := by
      decide +kernel
    cases hfault.symm.trans (Text.Utf8.decode_eq_ok_iff.mpr hcs)

end LineShell.Script.Runner
