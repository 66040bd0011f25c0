import LineShell.Proofs.Line.Words
import LineShell.Proofs.Script.Account

/-!
# Proofs/Script/Blank — a script skips every line without words

    line without words  ═  blank line  ⊂  line that a script skips

A script looks for the first character of a line that is not blank; a session reads the line and
looks for its words.  The two agree: a line is read as no word at all exactly when all of it is
blank (`tokenize_eq_nil_iff`), since even an empty pair of quotes is a word.  So every command of a
script has a word: what a session does with none is never asked of it (`runFromBy_eq`), and each
command that is counted enters the history (`Passes.history`).
-/

namespace LineShell

namespace Line

/-- **A line has no words exactly when it is blank.** -/
theorem tokenize_eq_nil_iff {line : String} :
    tokenize line = .ok [] ↔ ∀ c ∈ line.toList, Text.isBlank c = true := by
  rw [tokenize_eq_ok_iff, List.map_nil]
  constructor
  · generalize line.toList = cs
    intro h
    cases h with
    | blanks hg => exact hg
  · exact fun h => .blanks h

end Line

namespace Session

/-- The bodies of the commands run no line. -/
def Quiet (s : Session) : Prop := ∀ c ∈ s.commands.commands, ∀ args, (c.body args).RunsNoLine

/-- With such commands, a line with a word enters the history once, and no other line does. -/
theorem Quiet.exec_keeps {s t : Session} {line : String} {result : Except Failure Unit}
    (hs : s.Quiet) (h : s.exec line = (result, t)) :
    t.history = (if s.isActive && hasWord (Line.tokenize line) then s.history.push line
      else s.history) ∧ t.commands = s.commands := by
  have hanswer := (execWith_eq_iff.mp h).imp fun c hc args result t hend =>
    (Action.performWith_eq_iff_does (hs c hc args)).mp hend
  exact hanswer.keeps Action.Does.keeps

end Session

namespace Script

/-- A line without words is skipped. -/
theorem isComment_of_tokenize {line : String} (h : Line.tokenize line = .ok []) :
    isComment line = true := by
  rw [isComment, Text.dropBlanks_eq_nil_iff.mpr (Line.tokenize_eq_nil_iff.mp h)]

/-- **What a script runs has a word.** -/
theorem ne_nil_of_tokenize {line : String} {tokens : List String}
    (hc : isComment line = false) (h : Line.tokenize line = .ok tokens) : tokens ≠ [] := by
  rintro rfl
  simp [isComment_of_tokenize h] at hc

theorem hasWord_of_isCommand {line : String} (h : isCommand line = true) :
    Session.hasWord (Line.tokenize line) = true := by
  obtain ⟨hc, tokens, ht⟩ := isCommand_iff.mp h
  rw [ht]
  cases tokens with
  | nil => exact absurd rfl (ne_nil_of_tokenize hc ht)
  | cons => rfl

namespace Runner

/-! ## Lines without words never reach the session

`run` is anything that might be done with the words of a line. -/

section By

variable (run : Session → String → List String → Session.Outcome Unit) (path : String)

/-- Runs lines as a runner does, but lets `run` act on their words. -/
def runFromBy : (number : Nat) → List String → Runner → Except LineShell.Failure Unit × Runner
  | _, [], r => (.ok (), r)
  | number, line :: rest, r =>
      let counted := { r with lineCount := r.lineCount + 1 }
      if isComment line then runFromBy (number + 1) rest counted
      else match Line.tokenize line with
        | .error fault =>
            runFromBy (number + 1) rest
              { counted with errors := r.errors.push ⟨fault.name, number, path⟩ }
        | .ok tokens =>
            if r.session.isActive then
              match run r.session line tokens with
              | (.ok (), session) =>
                  runFromBy (number + 1) rest
                    { counted with session, commandCount := r.commandCount + 1 }
              | (.error failure, session) => (.error failure, { counted with session })
            else (.ok (), counted)

variable {run}

/-- **What is done with a line without words does not matter to a script.** -/
theorem runFromBy_eq (h : ∀ (s : Session) line tokens, tokens ≠ [] →
      run s line tokens = s.execTokens line tokens) : ∀ (lines : List String) (number : Nat)
    (r : Runner), runFromBy run path number lines r = runFrom path number lines r
  | [], _, _ => rfl
  | line :: rest, number, r => by
    have ih := runFromBy_eq h rest (number + 1)
    cases hc : isComment line with
    | true => simp only [runFromBy, runFrom, hc, if_true, ih]
    | false =>
      cases ht : Line.tokenize line with
      | error fault => simp only [runFromBy, runFrom, hc, ht, Bool.false_eq_true, if_false, ih]
      | ok tokens =>
        have hrun := h r.session line tokens (ne_nil_of_tokenize hc ht)
        cases ha : r.session.isActive with
        | false => simp [runFromBy, runFrom, hc, ht, ha]
        | true =>
          rcases hx : r.session.execTokens line tokens with ⟨failure | _, t⟩
          · simp [runFromBy, runFrom, hc, ht, ha, hrun, hx]
          · simp [runFromBy, runFrom, hc, ht, ha, hrun, hx, ih]

end By

/-! ## Commands and entries -/

/-- **The commands among passed lines enter the history**, each of them once. -/
theorem Passes.history {path : String} {number : Nat} {lines : List String} {r r' : Runner}
    (h : Passes path number lines r r') (hr : r.session.Quiet) :
    r'.session.history.toList = r.session.history.toList ++ lines.filter isCommand := by
  induction h with
  | nil => rw [List.filter_nil, List.append_nil]
  | cons hp _ ih =>
    cases hp with
    | skipped hc => simpa [isCommand_of_isComment hc] using ih hr
    | noted hf => simpa [isCommand_of_fault? hf] using ih hr
    | ran hc ha hx =>
      obtain ⟨hhistory, hcommands⟩ := hr.exec_keeps hx
      rw [ha, hasWord_of_isCommand hc] at hhistory
      have hquiet : Session.Quiet _ := fun c hmem => hr c (hcommands ▸ hmem)
      rw [List.filter_cons_of_pos hc, ih hquiet, hhistory]
      simp

/-- A run whose bodies return counts as many commands as it adds entries to the history. -/
theorem exists_entries {r : Runner} {lines : List String} (path : String)
    (hquiet : r.session.Quiet) (hreturns : Returning r.session lines) :
    ∃ entries, (r.runLines lines path).2.session.history.toList =
        r.session.history.toList ++ entries ∧
      (r.runLines lines path).2.commandCount = r.commandCount + entries.length := by
  obtain ⟨r', hp⟩ | ⟨before, line, behind, r', rfl, hp, hc, ha⟩ := passes_or_stops path hreturns
  · refine ⟨lines.filter isCommand, ?_, ?_⟩
    · rw [runLines_of_passes hp, hp.history hquiet]
    · rw [runLines_of_passes hp, hp.commandCount, List.countP_eq_length_filter]
  · -- the line that stops the run neither counts nor enters the history
    refine ⟨before.filter isCommand, ?_, ?_⟩
    · rw [runLines_of_halts hp (.stopped hc ha), hp.history hquiet]
    · rw [runLines_of_halts hp (.stopped hc ha), hp.commandCount, List.countP_eq_length_filter]

/-- **A script and a session agree about lines without words.**  A line is read as no word exactly
when it is blank, and then a script skips it.  So a line that is no comment and can be read has a
word, and what a session would do with none makes no difference to any run.  With commands that run
no line and return, a run counts exactly as many commands as it adds entries to the history. -/
theorem skips_wordless (r : Runner) (lines : List String) (path : String) :
    (∀ line, Line.tokenize line = .ok [] ↔ ∀ c ∈ line.toList, Text.isBlank c = true) ∧
    (∀ line, Line.tokenize line = .ok [] → isComment line = true) ∧
    (∀ line tokens, isComment line = false → Line.tokenize line = .ok tokens → tokens ≠ []) ∧
    (∀ run : Session → String → List String → Session.Outcome Unit,
      (∀ s line tokens, tokens ≠ [] → run s line tokens = s.execTokens line tokens) →
      runFromBy run path 1 lines r = r.runLines lines path) ∧
    (r.session.Quiet → Returning r.session lines →
      ∃ entries, (r.runLines lines path).2.session.history.toList =
          r.session.history.toList ++ entries ∧
        (r.runLines lines path).2.commandCount = r.commandCount + entries.length) := by
  refine ⟨fun _ => Line.tokenize_eq_nil_iff, fun _ => isComment_of_tokenize,
    fun _ _ => ne_nil_of_tokenize, fun run hrun => ?_, fun hquiet hreturns => ?_⟩
  · exact runFromBy_eq path hrun lines 1 r
  · exact exists_entries path hquiet hreturns

/-- A line of ideographic spaces, an empty pair of quotes, which names no command, an escape alone,
a broken line, and a command behind blanks; a line without words would be a failure. -/
theorem skips_wordless_quotes :
    let r : Runner := {
      session := (Session.start "tsh" "guest" "box" Builtin.registry).log "old"
      commandCount := 4 }
    let lines := ["\u3000\u3000", "''", "\\'", "'x", "\tdeclare A=1"]
    let run := fun (s : Session) line tokens =>
      if tokens = [] then (.error .unimplemented, s) else s.execTokens line tokens
    r.session.Quiet ∧ Returning r.session lines ∧
      runFromBy run "s.sh" 1 lines r = r.runLines lines "s.sh" ∧
      (r.runLines lines "s.sh").2.session.history.toList =
        ["old", "''", "\\'", "\tdeclare A=1"] ∧
      (r.runLines lines "s.sh").2.commandCount = 7 := by
  intro r lines run
  have hquiet : r.session.Quiet := Builtin.runsNoLine_builtin
  have hreturns : Returning r.session lines := returning_builtin rfl lines
  have hhistory : (r.runLines lines "s.sh").2.session.history.toList =
      ["old", "''", "\\'", "\tdeclare A=1"] := by decide +kernel
  obtain ⟨-, -, -, hrun, hcount⟩ := skips_wordless r lines "s.sh"
  obtain ⟨entries, hentries, hcommands⟩ := hcount hquiet hreturns
  have hold : r.session.history.toList = ["old"] := rfl
  rw [hhistory, hold] at hentries
  obtain rfl : ["''", "\\'", "\tdeclare A=1"] = entries := (List.cons.inj hentries).2
  exact ⟨hquiet, hreturns, hrun run fun _ _ _ hne => if_neg hne, hhistory, hcommands⟩

end Runner

end Script

end LineShell
