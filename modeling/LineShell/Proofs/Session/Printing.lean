import LineShell.Proofs.Session.Answers

/-!
# Proofs/Session/Printing — a session does not look at what it has printed

    s            ──line──▸  t
    s behind o   ──line──▸  t behind o

The output is a log that every operation only adds to and none reads.  So output that was there
before a line stays in front of what the line prints and changes nothing else (`exec_behind`), and
the lines that a body prints one after another come out as they are (`performWith_recordAll`).
-/

namespace LineShell

namespace Output

/-- One log behind the other. -/
instance : Append Output := ⟨fun o p => ⟨o.events ++ p.events⟩⟩

theorem append_empty (o : Output) : o ++ {} = o := by
  change Output.mk (o.events ++ #[]) = o
  rw [Array.append_empty]

theorem append_record (o p : Output) (text : String) : o ++ p.record text = (o ++ p).record text :=
  congrArg Output.mk Array.append_push

theorem append_recordError (o p : Output) (text : String) :
    o ++ p.recordError text = (o ++ p).recordError text := congrArg Output.mk Array.append_push

theorem append_clear (o p : Output) : o ++ p.clear = (o ++ p).clear :=
  congrArg Output.mk Array.append_push

theorem allLines_append (o p : Output) : (o ++ p).allLines = o.allLines ++ p.allLines := by
  change (Output.mk (o.events ++ p.events)).allLines = _
  simp [allLines]

end Output

namespace Session

/-- The session with output in front of its own. -/
def behind (o : Output) (s : Session) : Session := { s with output := o ++ s.output }

/-- The session with its output forgotten. -/
def drained (s : Session) : Session := { s with output := {} }

/-- A session stands behind its own output. -/
theorem behind_drained (s : Session) : behind s.output s.drained = s := by
  rw [behind, drained, Output.append_empty]

theorem behind_recordError (o : Output) (s : Session) (text : String) :
    behind o (s.recordError text) = (behind o s).recordError text := by
  simp only [behind, recordError, Output.append_recordError]

theorem behind_record (o : Output) (s : Session) (text : String) :
    behind o (s.record text) = (behind o s).record text := by
  simp only [behind, record, Output.append_record]

theorem behind_set (o : Output) (s : Session) (name : String) (value : Value) :
    behind o (s.set name value) = (behind o s).set name value := rfl

theorem behind_clear (o : Output) (s : Session) : behind o s.clear = (behind o s).clear := by
  simp only [behind, clear, Output.append_clear]

/-! ## Lines -/

/-- A rule that applies to a session applies to it behind any output. -/
theorem Answer.behind {Ends : Action → Session → Except Failure Int → Session → Prop} {o : Output}
    {s t : Session} {line : String} {reading : Except Line.Fault (List String)}
    {result : Except Failure Unit} (h : Answer Ends s line reading result t)
    (hends : ∀ {a u result v}, Ends a u result v →
      Ends a (Session.behind o u) result (Session.behind o v)) :
    Answer Ends (Session.behind o s) line reading result (Session.behind o t) := by
  cases h with
  | inactive ha => exact .inactive ha
  | unreadable ha hr =>
    rw [behind_recordError]
    exact .unreadable (s := Session.behind o s) ha hr
  | blank ha hr => exact .blank ha hr
  | unknown ha hm hn =>
    rw [behind_recordError]
    exact .unknown (s := Session.behind o s) ha hm hn
  | wrongCount ha hc hcount =>
    rw [behind_set, behind_recordError]
    exact .wrongCount (s := Session.behind o s) ha ⟨hc.registered, hc.words⟩ hcount
  | returned ha hc hcount hend =>
    exact .returned (s := Session.behind o s) ha ⟨hc.registered, hc.words⟩ hcount (hends hend)
  | failed ha hc hcount hend =>
    exact .failed (s := Session.behind o s) ha ⟨hc.registered, hc.words⟩ hcount (hends hend)

/-- The outcome behind some output. -/
def Outcome.behind {α : Type} (o : Output) (outcome : Outcome α) : Outcome α :=
  (outcome.1, Session.behind o outcome.2)

section Perform

variable {perform : Action → Session → Outcome Int} {o : Output}
  (hp : ∀ a s, perform a (behind o s) = (perform a s).behind o)

include hp

theorem execWith_behind (s : Session) (line : String) :
    (behind o s).execWith perform line = (s.execWith perform line).behind o := by
  obtain ⟨result, t, ha⟩ := exists_answer perform s line (Line.tokenize line)
  rw [ha.execWith]
  exact (ha.behind fun {a u _ _} hend => by rw [hp, hend]; rfl).execWith

theorem execTokensWith_behind (s : Session) (line : String) (tokens : List String) :
    (behind o s).execTokensWith perform line tokens =
      (s.execTokensWith perform line tokens).behind o := by
  obtain ⟨result, t, ha⟩ := exists_answer perform s line (.ok tokens)
  rw [ha.execTokensWith]
  exact (ha.behind fun {a u _ _} hend => by rw [hp, hend]; rfl).execTokensWith

theorem performWith_behind (a : Action) (s : Session) :
    a.performWith perform (behind o s) = (a.performWith perform s).behind o := by
  induction a generalizing s with
  | done | fail => rfl
  | inspect next ih => exact ih s.view s
  | record line next ih =>
    obtain ⟨text, isError⟩ := line
    cases isError with
    | false =>
      have hstep := ih (s.record text)
      rwa [behind_record] at hstep
    | true =>
      have hstep := ih (s.recordError text)
      rwa [behind_recordError] at hstep
  | clear next ih =>
    have hstep := ih s.clear
    rwa [behind_clear] at hstep
  | set name value next ih => exact ih (s.set name value)
  | unset name next ih => exact ih (s.unset name)
  | reset shell user host next ih => exact ih (s.reset shell user host)
  | exit code next ih => exact ih (s.exit code)
  | exec line next ih =>
    simp only [Action.performWith, execWith_behind hp]
    rcases s.execWith perform line with ⟨failure | _, t⟩
    · exact ih (some failure) t
    · exact ih none t
  | execTokens line tokens next ih =>
    simp only [Action.performWith, execTokensWith_behind hp]
    rcases s.execTokensWith perform line tokens with ⟨failure | _, t⟩
    · exact ih (some failure) t
    · exact ih none t

end Perform

theorem perform_behind (o : Output) : ∀ (depth : Nat) (a : Action) (s : Session),
    a.perform depth (behind o s) = (a.perform depth s).behind o
  | 0, _, _ => rfl
  | depth + 1, a, s => performWith_behind (perform_behind o depth) a s

/-- **A line does the same behind any output**, and what it prints comes after that. -/
theorem exec_behind (o : Output) (s : Session) (line : String) :
    (behind o s).exec line = (s.exec line).behind o :=
  execWith_behind (perform_behind o nestingLimit) s line

/-! ## Printing several lines -/

/-- The session after more events of its output. -/
def printed (s : Session) (events : List OutputEvent) : Session :=
  { s with output := ⟨s.output.events ++ events.toArray⟩ }

theorem printed_nil (s : Session) : s.printed [] = s := by
  rw [printed, Array.append_empty]

theorem printed_printed (s : Session) (first rest : List OutputEvent) :
    (s.printed first).printed rest = s.printed (first ++ rest) := by
  simp only [printed, Array.append_assoc, List.append_toArray]

/-- Records normal lines in order. -/
def recordLines (s : Session) (lines : List String) : Session := lines.foldl record s

/-- The lines come out as they are, and nothing else happens. -/
theorem recordLines_eq_printed : ∀ (lines : List String) (s : Session),
    s.recordLines lines = s.printed (lines.map fun text => .line ⟨text, false⟩)
  | [], s => s.printed_nil.symm
  | text :: rest, s => by
    have hrest := recordLines_eq_printed rest (s.record text)
    have hfirst : s.record text = s.printed [.line ⟨text, false⟩] := rfl
    rwa [hfirst, printed_printed, List.singleton_append] at hrest

theorem events_recordLines (lines : List String) (s : Session) :
    (s.recordLines lines).output.events.toList =
      s.output.events.toList ++ lines.map fun text => .line ⟨text, false⟩ := by
  rw [recordLines_eq_printed]
  exact Array.toList_append

end Session

/-- **A body that prints lines prints them all**, and goes on from there. -/
theorem Action.performWith_recordAll {perform : Action → Session → Session.Outcome Int}
    {next : Action} : ∀ (lines : List String) (s : Session),
    (recordAll lines next).performWith perform s = next.performWith perform (s.recordLines lines)
  | [], _ => rfl
  | text :: rest, s => performWith_recordAll rest (s.record text)

end LineShell
