import Mathlib.Logic.Relation
import LineShell.Proofs.Session.Answers

/-!
# Proofs/Session/Steps — everything that a session can go through

    s ──▸ ⋯ ──▸ t   (`Steps`)

Whatever a session is asked to do, and however deeply lines run lines, it goes through steps of
eight kinds only, and a line enters the history of an active session only.  So a property that
every kind of step keeps is kept by every line (`steps_exec`); that the commands stay the same is
the first of them (`Steps.commands`).
-/

namespace LineShell

namespace Session

/-- One step of a session. -/
inductive Step : Session → Session → Prop
  | record {s : Session} (text : String) : Step s (s.record text)
  | recordError {s : Session} (text : String) : Step s (s.recordError text)
  | clear {s : Session} : Step s s.clear
  | set {s : Session} (name : String) (value : Value) : Step s (s.set name value)
  | unset {s : Session} (name : String) : Step s (s.unset name)
  | reset {s : Session} (shell user host : String) : Step s (s.reset shell user host)
  | exit {s : Session} (code : Int) : Step s (s.exit code)
  | log {s : Session} (line : String) : s.isActive = true → Step s (s.log line)

/-- Any number of steps. -/
abbrev Steps : Session → Session → Prop := Relation.ReflTransGen Step

theorem Answer.steps {Ends : Action → Session → Except Failure Int → Session → Prop}
    {s t : Session} {line : String} {reading : Except Line.Fault (List String)}
    {result : Except Failure Unit} (h : Answer Ends s line reading result t)
    (hends : ∀ {a u result v}, Ends a u result v → Steps u v) : Steps s t := by
  cases h with
  | inactive ha => exact .refl
  | unreadable ha hr => exact .single (.recordError _)
  | blank ha hr => exact .refl
  | unknown ha hm hn => exact .tail (.single (.log line ha)) (.recordError _)
  | wrongCount ha hc hcount =>
    exact .tail (.tail (.single (.log line ha)) (.recordError _)) (.set _ _)
  | returned ha hc hcount hend => exact .tail (.head (.log line ha) (hends hend)) (.set _ _)
  | failed ha hc hcount hend => exact .head (.log line ha) (hends hend)

section Perform

variable {perform : Action → Session → Outcome Int}

theorem steps_execWith (hp : ∀ a s, Steps s (perform a s).2) (s : Session) (line : String) :
    Steps s (s.execWith perform line).2 := by
  obtain ⟨result, t, ha⟩ := exists_answer perform s line (Line.tokenize line)
  rw [ha.execWith]
  exact ha.steps fun {a u _ _} hend => by simpa only [hend] using hp a u

theorem steps_execTokensWith (hp : ∀ a s, Steps s (perform a s).2) (s : Session) (line : String)
    (tokens : List String) : Steps s (s.execTokensWith perform line tokens).2 := by
  obtain ⟨result, t, ha⟩ := exists_answer perform s line (.ok tokens)
  rw [ha.execTokensWith]
  exact ha.steps fun {a u _ _} hend => by simpa only [hend] using hp a u

theorem steps_performWith (hp : ∀ a s, Steps s (perform a s).2) (a : Action) (s : Session) :
    Steps s (a.performWith perform s).2 := by
  induction a generalizing s with
  | done code => exact .refl
  | fail cause => exact .refl
  | inspect next ih => exact ih s.view s
  | record line next ih =>
    obtain ⟨text, isError⟩ := line
    cases isError with
    | false => exact .head (.record text) (ih _)
    | true => exact .head (.recordError text) (ih _)
  | clear next ih => exact .head .clear (ih _)
  | set name value next ih => exact .head (.set name value) (ih _)
  | unset name next ih => exact .head (.unset name) (ih _)
  | reset shell user host next ih => exact .head (.reset shell user host) (ih _)
  | exit code next ih => exact .head (.exit code) (ih _)
  | exec line next ih =>
    have hline := steps_execWith hp s line
    simp only [Action.performWith]
    generalize s.execWith perform line = outcome at hline ⊢
    obtain ⟨failure | _, t⟩ := outcome
    · exact hline.trans (ih (some failure) t)
    · exact hline.trans (ih none t)
  | execTokens line tokens next ih =>
    have hline := steps_execTokensWith hp s line tokens
    simp only [Action.performWith]
    generalize s.execTokensWith perform line tokens = outcome at hline ⊢
    obtain ⟨failure | _, t⟩ := outcome
    · exact hline.trans (ih (some failure) t)
    · exact hline.trans (ih none t)

end Perform

/-- **A body takes nothing but steps**, however deeply its lines run lines. -/
theorem steps_perform : ∀ (depth : Nat) (a : Action) (s : Session),
    Steps s (a.perform depth s).2
  | 0, _, _ => .refl
  | depth + 1, a, s => steps_performWith (steps_perform depth) a s

/-- **A line takes nothing but steps.** -/
theorem steps_exec (s : Session) (line : String) : Steps s (s.exec line).2 :=
  steps_execWith (steps_perform nestingLimit) s line

/-! ## What every step keeps -/

theorem Step.commands {s t : Session} (h : Step s t) : t.commands = s.commands := by
  cases h <;> rfl

/-- No command is added or removed while a session runs. -/
theorem Steps.commands {s t : Session} (h : Steps s t) : t.commands = s.commands := by
  induction h with
  | refl => rfl
  | tail _ hstep ih => exact hstep.commands.trans ih

end Session

end LineShell
