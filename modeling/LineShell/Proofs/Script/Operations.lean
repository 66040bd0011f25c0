import LineShell.Proofs.Script.Turns
import LineShell.Proofs.Session.Steps

/-!
# Proofs/Script/Operations — everything that can be asked of a session

    s ──operation──▸ s₁ ──operation──▸ s₂ ──operation──▸ ⋯   (`Session.operated`)

An operation comes from outside: a line, a command called by its name, a body, a script, a change of
the variables, of the commands or of the session's end.  An operation that fails leaves a session
too, and the next one finds that.  Whatever is asked, the session goes through the steps of
`Proofs/Session/Steps` and registrations only (`changes_operated`), so what each of these keeps,
every sequence of operations keeps.
-/

namespace LineShell

open Script

/-- Something that is asked of a session from outside. -/
inductive Operation where
  | exec (line : String)
  | execTokens (line : String) (tokens : List String)
  /-- Calls a command of the session by its name. -/
  | dispatch (name : String) (args : List String)
  /-- Performs a body, be it that of a command of the session or not. -/
  | perform (body : Action)
  /-- Lets a runner, whatever it has run before, run lines in the session. -/
  | runLines (runner : Runner) (lines : List String) (path : String)
  | register (commands : List (Command CommandBody))
  | set (name : String) (value : Value)
  | unset (name : String)
  | reset (shell user host : String)
  | clear
  | exit (code : Int)

namespace Session

/-- The session after an operation, whether the operation fails or not. -/
def operate (s : Session) : Operation → Session
  | .exec line => (s.exec line).2
  | .execTokens line tokens => (s.execTokens line tokens).2
  | .dispatch name args => (s.dispatch name args).2
  | .perform body => (body.perform nestingLimit s).2
  | .runLines runner lines path => ({ runner with session := s }.runLines lines path).2.session
  | .register commands => (s.register commands).2
  | .set name value => s.set name value
  | .unset name => s.unset name
  | .reset shell user host => s.reset shell user host
  | .clear => s.clear
  | .exit code => s.exit code

/-- The session after operations in order. -/
def operated (s : Session) (operations : List Operation) : Session := operations.foldl operate s

/-! ## What an operation takes a session through -/

/-- A step of a session, or a registration. -/
inductive Change : Session → Session → Prop
  | step {s t : Session} : Step s t → Change s t
  | register {s : Session} (commands : List (Command CommandBody)) :
      Change s (s.register commands).2

/-- Any number of changes. -/
abbrev Changes : Session → Session → Prop := Relation.ReflTransGen Change

theorem Steps.changes {s t : Session} (h : Steps s t) : Changes s t := by
  induction h with
  | refl => exact .refl
  | tail _ hstep ih => exact ih.tail (.step hstep)

theorem steps_of_exec {s t : Session} {line : String} {result : Except Failure Unit}
    (h : s.exec line = (result, t)) : Steps s t := by
  have hsteps := steps_exec s line
  rwa [h] at hsteps

theorem steps_dispatch (s : Session) (name : String) (args : List String) :
    Steps s (s.dispatch name args).2 := by
  by_cases hname : name ∈ s.commands.names
  · obtain ⟨c, hc, rfl⟩ := List.mem_map.mp hname
    by_cases hcount : c.info.Admits args.length
    · rw [dispatch, dispatchWith_of_admits hc hcount]
      exact steps_perform nestingLimit (c.body args) s
    · rw [dispatch, dispatchWith_of_not_admits hc hcount]
      exact .single (.recordError _)
  · rw [dispatch, dispatchWith_of_unknown hname]

end Session

namespace Script.Runner

open Session (Steps)

theorem Pass.steps {path line : String} {number : Nat} {r r' : Runner}
    (h : Pass path number line r r') : Steps r.session r'.session := by
  cases h with
  | skipped _ | noted _ => exact .refl
  | ran _ _ hx => exact Session.steps_of_exec hx

theorem Passes.steps {path : String} {number : Nat} {lines : List String} {r r' : Runner}
    (h : Passes path number lines r r') : Steps r.session r'.session := by
  induction h with
  | nil => exact .refl
  | cons hp _ ih => exact hp.steps.trans ih

theorem Halt.steps {line : String} {r r' : Runner} {result : Except LineShell.Failure Unit}
    (h : Halt line r result r') : Steps r.session r'.session := by
  cases h with
  | stopped _ _ => exact .refl
  | failed _ _ hx => exact Session.steps_of_exec hx

theorem steps_runLines (r : Runner) (lines : List String) (path : String) :
    Steps r.session (r.runLines lines path).2.session := by
  obtain ⟨r', hp⟩ | ⟨before, line, behind, r', result, r'', rfl, hp, hh⟩ :=
    passes_or_halts path lines 1 r
  · rw [runLines_of_passes hp]
    exact hp.steps
  · rw [runLines_of_halts hp hh]
    exact hp.steps.trans hh.steps

end Script.Runner

namespace Session

/-- **An operation takes nothing but changes.** -/
theorem changes_operate (s : Session) : ∀ operation : Operation, Changes s (s.operate operation)
  | .exec line => (steps_exec s line).changes
  | .execTokens line tokens =>
    (steps_execTokensWith (steps_perform nestingLimit) s line tokens).changes
  | .dispatch name args => (steps_dispatch s name args).changes
  | .perform body => (steps_perform nestingLimit body s).changes
  | .runLines runner lines path =>
    ({ runner with session := s } : Runner).steps_runLines lines path |>.changes
  | .register commands => .single (.register commands)
  | .set name value => .single (.step (.set name value))
  | .unset name => .single (.step (.unset name))
  | .reset shell user host => .single (.step (.reset shell user host))
  | .clear => .single (.step .clear)
  | .exit code => .single (.step (.exit code))

/-- …and so does any number of operations. -/
theorem changes_operated : ∀ (operations : List Operation) (s : Session),
    Changes s (s.operated operations)
  | [], _ => .refl
  | operation :: rest, s => (changes_operate s operation).trans (changes_operated rest _)

end Session

end LineShell
