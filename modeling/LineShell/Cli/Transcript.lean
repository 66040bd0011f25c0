import LineShell.Session.Output
import LineShell.Text.Console

/-!
# Cli/Transcript — what a run prints

A transcript holds the two output streams of a run. Transcripts of consecutive runs are joined
stream by stream, so text keeps its order within a stream.
-/

namespace LineShell.Cli

/-- The text on the two output streams. -/
structure Transcript where
  stdout : String := ""
  stderr : String := ""
  deriving DecidableEq, Repr

namespace Transcript

/-- Text on the normal stream. -/
def out (s : String) : Transcript := { stdout := s }

/-- Text on the error stream. -/
def err (s : String) : Transcript := { stderr := s }

instance : Append Transcript := ⟨fun a b => ⟨a.stdout ++ b.stdout, a.stderr ++ b.stderr⟩⟩

theorem stdout_append (a b : Transcript) : (a ++ b).stdout = a.stdout ++ b.stdout := rfl

theorem stderr_append (a b : Transcript) : (a ++ b).stderr = a.stderr ++ b.stderr := rfl

theorem append_assoc (a b c : Transcript) : a ++ b ++ c = a ++ (b ++ c) := by
  change mk (a.stdout ++ b.stdout ++ c.stdout) (a.stderr ++ b.stderr ++ c.stderr) =
    mk (a.stdout ++ (b.stdout ++ c.stdout)) (a.stderr ++ (b.stderr ++ c.stderr))
  rw [String.append_assoc, String.append_assoc]

theorem empty_append (t : Transcript) : {} ++ t = t := by
  change mk ("" ++ t.stdout) ("" ++ t.stderr) = t
  rw [String.empty_append, String.empty_append]

theorem append_empty (t : Transcript) : t ++ {} = t := by
  change mk (t.stdout ++ "") (t.stderr ++ "") = t
  rw [String.append_empty, String.append_empty]

/-- Lines on the error stream. -/
def errLines (lines : List String) : Transcript := err (String.join (lines.map (· ++ "\n")))

@[simp] theorem stdout_out (s : String) : (out s).stdout = s := rfl

@[simp] theorem stderr_out (s : String) : (out s).stderr = "" := rfl

@[simp] theorem stdout_errLines (lines : List String) : (errLines lines).stdout = "" := rfl

@[simp] theorem stderr_errLines (lines : List String) :
    (errLines lines).stderr = String.join (lines.map (· ++ "\n")) := rfl

/-- What a console shows of a recorded line. -/
def ofLine (line : OutputLine) : Transcript :=
  if line.isError then err (Text.showError line.text ++ "\n")
  else out (Text.showText line.text ++ "\n")

/-- What a console shows of recorded lines. -/
def ofLines : List OutputLine → Transcript
  | [] => {}
  | line :: rest => ofLine line ++ ofLines rest

theorem ofLines_append : ∀ (xs ys : List OutputLine), ofLines (xs ++ ys) = ofLines xs ++ ofLines ys
  | [], ys => (empty_append (ofLines ys)).symm
  | line :: xs, ys => by
      rw [List.cons_append, ofLines, ofLines, ofLines_append xs ys, append_assoc]

/-- The normal stream shows the normal lines… -/
theorem stdout_ofLines : ∀ lines : List OutputLine, (ofLines lines).stdout =
    String.join ((lines.filter (!·.isError)).map fun line => Text.showText line.text ++ "\n")
  | [] => rfl
  | line :: rest => by
      rw [ofLines, stdout_append, stdout_ofLines rest]
      cases h : line.isError with
      | false => simp [ofLine, out, h]
      | true => simp [ofLine, err, h]

/-- …and the error stream the error lines, both in order. -/
theorem stderr_ofLines : ∀ lines : List OutputLine, (ofLines lines).stderr =
    String.join ((lines.filter (·.isError)).map fun line => Text.showError line.text ++ "\n")
  | [] => rfl
  | line :: rest => by
      rw [ofLines, stderr_append, stderr_ofLines rest]
      cases h : line.isError with
      | false => simp [ofLine, out, h]
      | true => simp [ofLine, err, h]

/-- What a console shows of the output of a session. -/
def ofOutput (o : Output) : Transcript := ofLines o.allLines

end Transcript

/-- How a run ends: its exit code and what it has printed. -/
structure Ending where
  code : Nat
  transcript : Transcript := {}
  deriving DecidableEq, Repr

namespace Ending

/-- The ending with something printed before it. -/
def after (t : Transcript) (e : Ending) : Ending := { e with transcript := t ++ e.transcript }

end Ending

end LineShell.Cli
