import LineShell.Session.Basic
import LineShell.Session.Builtin

/-!
# Proofs/Session/Bodies — what a body does that runs no line

    a, s ──operation after operation──▸ result, t   (`Does`)

A body that runs no line never comes back to the session that performs it, so it ends the same way
at every depth of nesting (`performWith_eq_iff_does`), and it can touch neither the history nor the
commands (`Does.keeps`).  The commands every session starts with have such bodies, which return
zero or one (`yields_builtin`).
-/

namespace LineShell

namespace Action

/-- The body runs no line, whatever it sees of the session. -/
def RunsNoLine : Action → Prop
  | done _ | fail _ => True
  | inspect next => ∀ view, (next view).RunsNoLine
  | record _ next | clear next | set _ _ next | unset _ next | reset _ _ _ next | exit _ next =>
      next.RunsNoLine
  | exec _ _ | execTokens _ _ _ => False

/-- The body runs no line and returns one of these codes, whatever it sees of the session. -/
def Yields (codes : Int → Prop) : Action → Prop
  | done code => codes code
  | inspect next => ∀ view, (next view).Yields codes
  | record _ next | clear next | set _ _ next | unset _ next | reset _ _ _ next | exit _ next =>
      next.Yields codes
  | fail _ | exec _ _ | execTokens _ _ _ => False

theorem Yields.runsNoLine {codes : Int → Prop} {a : Action} (h : a.Yields codes) :
    a.RunsNoLine := by
  induction a with
  | done code => trivial
  | fail cause => exact h.elim
  | inspect next ih => exact fun view => ih view (h view)
  | record _ _ ih | clear _ ih | set _ _ _ ih | unset _ _ ih | reset _ _ _ _ ih | exit _ _ ih =>
    exact ih h
  | exec line next => exact h.elim
  | execTokens line tokens next => exact h.elim

/-- The body, started in one session, ends with a result and leaves another.  No rule is about a
body that runs a line. -/
inductive Does : Action → Session → Except Failure Int → Session → Prop
  | done {code : Int} {s : Session} : Does (.done code) s (.ok code) s
  | fail {cause : Failure} {s : Session} : Does (.fail cause) s (.error cause) s
  | inspect {next : SessionView → Action} {s t : Session} {result : Except Failure Int} :
      Does (next s.view) s result t → Does (.inspect next) s result t
  | record {text : String} {next : Action} {s t : Session} {result : Except Failure Int} :
      Does next (s.record text) result t → Does (.record ⟨text, false⟩ next) s result t
  | recordError {text : String} {next : Action} {s t : Session} {result : Except Failure Int} :
      Does next (s.recordError text) result t → Does (.record ⟨text, true⟩ next) s result t
  | clear {next : Action} {s t : Session} {result : Except Failure Int} :
      Does next s.clear result t → Does (.clear next) s result t
  | set {name : String} {value : Value} {next : Action} {s t : Session}
      {result : Except Failure Int} :
      Does next (s.set name value) result t → Does (.set name value next) s result t
  | unset {name : String} {next : Action} {s t : Session} {result : Except Failure Int} :
      Does next (s.unset name) result t → Does (.unset name next) s result t
  | reset {shell user host : String} {next : Action} {s t : Session}
      {result : Except Failure Int} :
      Does next (s.reset shell user host) result t → Does (.reset shell user host next) s result t
  | exit {code : Int} {next : Action} {s t : Session} {result : Except Failure Int} :
      Does next (s.exit code) result t → Does (.exit code next) s result t

/-! ## Performing follows the rules -/

theorem Does.performWith {a : Action} {s t : Session} {result : Except Failure Int}
    (h : Does a s result t) (perform : Action → Session → Session.Outcome Int) :
    a.performWith perform s = (result, t) := by
  induction h with
  | done | fail => rfl
  | inspect _ ih | record _ ih | recordError _ ih | clear _ ih | set _ ih | unset _ ih
  | reset _ ih | exit _ ih => exact ih

/-- A body that runs no line comes to its end. -/
theorem RunsNoLine.does {a : Action} (h : a.RunsNoLine)
    (perform : Action → Session → Session.Outcome Int) (s : Session) :
    Does a s (a.performWith perform s).1 (a.performWith perform s).2 := by
  induction a generalizing s with
  | done code => exact .done
  | fail cause => exact .fail
  | inspect next ih => exact .inspect (ih s.view (h s.view) s)
  | record line next ih =>
    obtain ⟨text, isError⟩ := line
    cases isError with
    | false => exact .record (ih h (s.record text))
    | true => exact .recordError (ih h (s.recordError text))
  | clear next ih => exact .clear (ih h s.clear)
  | set name value next ih => exact .set (ih h (s.set name value))
  | unset name next ih => exact .unset (ih h (s.unset name))
  | reset shell user host next ih => exact .reset (ih h (s.reset shell user host))
  | exit code next ih => exact .exit (ih h (s.exit code))
  | exec line next => exact h.elim
  | execTokens line tokens next => exact h.elim

/-- **A body that runs no line ends the same way at every depth.** -/
theorem performWith_eq_iff_does {a : Action} (h : a.RunsNoLine)
    {perform : Action → Session → Session.Outcome Int} {s t : Session}
    {result : Except Failure Int} :
    a.performWith perform s = (result, t) ↔ Does a s result t := by
  refine ⟨fun he => ?_, fun hd => hd.performWith perform⟩
  have hd := h.does perform s
  rwa [he] at hd

/-- **A body that runs no line leaves the history and the commands alone.** -/
theorem Does.keeps {a : Action} {s t : Session} {result : Except Failure Int}
    (h : Does a s result t) : t.history = s.history ∧ t.commands = s.commands := by
  induction h with
  | done | fail => exact ⟨rfl, rfl⟩
  | inspect _ ih | record _ ih | recordError _ ih | clear _ ih | set _ ih | unset _ ih
  | reset _ ih | exit _ ih => exact ih

/-- A body that is to return one of some codes does so. -/
theorem Does.exists_code {codes : Int → Prop} {a : Action} {s t : Session}
    {result : Except Failure Int} (h : Does a s result t) (hy : a.Yields codes) :
    ∃ code, codes code ∧ result = .ok code := by
  induction h with
  | done => exact ⟨_, hy, rfl⟩
  | fail => exact hy.elim
  | inspect _ ih => exact ih (hy _)
  | record _ ih | recordError _ ih | clear _ ih | set _ ih | unset _ ih | reset _ ih
  | exit _ ih => exact ih hy

theorem Yields.exists_performWith {codes : Int → Prop} {a : Action} (h : a.Yields codes)
    (perform : Action → Session → Session.Outcome Int) (s : Session) :
    ∃ code t, codes code ∧ a.performWith perform s = (.ok code, t) := by
  have hd := h.runsNoLine.does perform s
  obtain ⟨code, hcode, hresult⟩ := hd.exists_code h
  exact ⟨code, _, hcode, Prod.ext hresult rfl⟩

/-! ## The commands every session starts with -/

theorem yields_recordAll {codes : Int → Prop} {next : Action} (h : next.Yields codes) :
    ∀ lines : List String, (recordAll lines next).Yields codes
  | [] => h
  | _ :: lines => yields_recordAll h lines

end Action

namespace Builtin

/-- Success and complaint. -/
def IsCode (code : Int) : Prop := code = 0 ∨ code = 1

theorem yields_zero : (Action.done 0).Yields IsCode := .inl rfl

theorem yields_one : (Action.done 1).Yields IsCode := .inr rfl

theorem yields_man (args : List String) : (man args).Yields IsCode := by
  intro view
  cases args with
  | nil => exact Action.yields_recordAll (yields_zero) _
  | cons name names =>
    refine Action.yields_recordAll ?_ _
    split
    · exact yields_zero
    · exact yields_one

theorem yields_declare : ∀ args : List String, (declare args).Yields IsCode
  | [] => fun view => Action.yields_recordAll (yields_zero) view.vars.listing
  | declaration :: _ => by
    simp only [declare]
    split
    · exact yields_zero
    · exact yields_zero
    · exact yields_one

theorem yields_unset : ∀ args : List String, (unset args).Yields IsCode
  | [] => yields_zero
  | _ :: _ => yields_zero

theorem yields_history (args : List String) : (history args).Yields IsCode :=
  fun view => Action.yields_recordAll (yields_zero) (historyLines view.history)

/-- **The commands every session starts with run no line and return zero or one.** -/
theorem yields_builtin : ∀ c ∈ registry.commands, ∀ args, (c.body args).Yields IsCode :=
  forall_mem_registry yields_man yields_declare yields_unset yields_history

theorem runsNoLine_builtin : ∀ c ∈ registry.commands, ∀ args, (c.body args).RunsNoLine :=
  fun c hc args => (yields_builtin c hc args).runsNoLine

end Builtin

end LineShell
