import LineShell.Proofs.Session.Answers

/-!
# Proofs/Session/Attempts — the lines that a session is asked to run, and those it logs

    s ──attempt, attempt, ⋯──▸ t      history of t = history of s ++ what was logged   (`Grows`)

Every request to run a line is an `Attempt`: the line as it was given, whether the session was
active just then, and what the line read as.  `Action.attempts` lists the attempts that a body
makes, in the order in which they are made: a line stands before the lines that its own command
runs.  Which of them are logged can be told from each attempt alone (`Attempt.enters`), and the
history grows by exactly those, however deeply lines run lines and however they end
(`grows_perform`).
-/

namespace LineShell

/-- A request to run a line, as the session found it. -/
structure Attempt where
  /-- The line as it was given, before anything was put in the place of its words. -/
  line : String
  /-- The session was active. -/
  active : Bool
  /-- What the line read as. -/
  reading : Except Line.Fault (List String)

/-- The line enters the history: the session was active and the line has a word. -/
def Attempt.enters (a : Attempt) : Bool := a.active && Session.hasWord a.reading

/-- The lines of the attempts that enter the history. -/
def logged (attempts : List Attempt) : List String :=
  (attempts.filter Attempt.enters).map Attempt.line

theorem logged_append (xs ys : List Attempt) : logged (xs ++ ys) = logged xs ++ logged ys := by
  simp [logged]

theorem logged_cons_of_enters {a : Attempt} (h : a.enters = true) (xs : List Attempt) :
    logged (a :: xs) = a.line :: logged xs := by
  simp [logged, h]

theorem logged_cons_of_not_enters {a : Attempt} (h : a.enters = false) (xs : List Attempt) :
    logged (a :: xs) = logged xs := by
  simp [logged, h]

/-! ## Listing attempts

`within` lists the attempts of the body of a command, as `perform` performs it. -/

namespace Session

/-- The attempts that a call of a command makes: those of its body, if it is performed. -/
def attemptsOfCall (within : Action → Session → List Attempt) (s : Session) (name : String)
    (args : List String) : List Attempt :=
  match s.commands.find? name with
  | none => []
  | some c => if c.info.accepts args.length then within (c.body args) s else []

/-- The attempt to run a line that reads so, followed by those that its command makes. -/
def attemptsOf (within : Action → Session → List Attempt) (s : Session) (line : String)
    (reading : Except Line.Fault (List String)) : List Attempt :=
  ⟨line, s.isActive, reading⟩ ::
    if s.isActive then
      match reading with
      | .error _ => []
      | .ok tokens =>
          match tokens.map (substitute s.vars) with
          | [] => []
          | name :: args => (s.log line).attemptsOfCall within name args
    else []

end Session

namespace Action

open Session

/-- The attempts that a body makes. -/
def attemptsWith (perform : Action → Session → Outcome Int)
    (within : Action → Session → List Attempt) : Action → Session → List Attempt
  | done _, _ | fail _, _ => []
  | inspect next, s => (next s.view).attemptsWith perform within s
  | record line next, s =>
      next.attemptsWith perform within
        (if line.isError then s.recordError line.text else s.record line.text)
  | clear next, s => next.attemptsWith perform within s.clear
  | set name value next, s => next.attemptsWith perform within (s.set name value)
  | unset name next, s => next.attemptsWith perform within (s.unset name)
  | reset shell user host next, s => next.attemptsWith perform within (s.reset shell user host)
  | exit code next, s => next.attemptsWith perform within (s.exit code)
  | exec line next, s =>
      s.attemptsOf within line (Line.tokenize line) ++
        match s.execWith perform line with
        | (.ok (), t) => (next none).attemptsWith perform within t
        | (.error failure, t) => (next (some failure)).attemptsWith perform within t
  | execTokens line tokens next, s =>
      s.attemptsOf within line (.ok tokens) ++
        match s.execTokensWith perform line tokens with
        | (.ok (), t) => (next none).attemptsWith perform within t
        | (.error failure, t) => (next (some failure)).attemptsWith perform within t

/-- The attempts that a body makes, with at most `depth` bodies under way at once. -/
def attempts : (depth : Nat) → Action → Session → List Attempt
  | 0, _, _ => []
  | depth + 1, a, s => a.attemptsWith (perform depth) (attempts depth) s

end Action

/-! ## The history grows by what was attempted -/

namespace Session

/-- The history of the second session is that of the first, followed by what was logged. -/
def Grows (s t : Session) (attempts : List Attempt) : Prop :=
  t.history.toList = s.history.toList ++ logged attempts

theorem Grows.of_history_eq {s t : Session} (h : t.history = s.history) : s.Grows t [] := by
  simp [Grows, logged, h]

theorem Grows.trans {s t u : Session} {xs ys : List Attempt} (h : s.Grows t xs)
    (h' : t.Grows u ys) : s.Grows u (xs ++ ys) := by
  rw [Grows, h', h, logged_append, List.append_assoc]

/-- Only the history counts. -/
theorem Grows.congr {s t u : Session} {xs : List Attempt} (h : s.Grows t xs)
    (hu : u.history = t.history) : s.Grows u xs := by
  rwa [Grows, hu]

/-- A line that is logged stands before what its command logs. -/
theorem Grows.of_log {s t : Session} {a : Attempt} {xs : List Attempt} (ha : a.enters = true)
    (h : (s.log a.line).Grows t xs) : s.Grows t (a :: xs) := by
  have hlog : (s.log a.line).history.toList = s.history.toList ++ [a.line] := by simp [log]
  rw [Grows, h, hlog, logged_cons_of_enters ha, List.append_assoc, List.singleton_append]

/-- A line that is not logged leaves the history alone. -/
theorem Grows.of_not_enters {s t : Session} {a : Attempt} (ha : a.enters = false)
    (h : t.history = s.history) : s.Grows t [a] := by
  rw [Grows, logged_cons_of_not_enters ha]
  exact Grows.of_history_eq h

section Perform

variable {perform : Action → Session → Outcome Int} {within : Action → Session → List Attempt}
  (hp : ∀ a s, Grows s (perform a s).2 (within a s))

include hp

theorem grows_dispatchWith (s : Session) (name : String) (args : List String) :
    s.Grows (s.dispatchWith perform name args).2 (s.attemptsOfCall within name args) := by
  by_cases hname : name ∈ s.commands.names
  · obtain ⟨c, hc, rfl⟩ := List.mem_map.mp hname
    have hfind : s.commands.find? c.name = some c := Registry.find?_eq_some_iff.mpr ⟨hc, rfl⟩
    by_cases hcount : c.info.Admits args.length
    · rw [dispatchWith_of_admits hc hcount]
      simp only [attemptsOfCall, hfind, if_pos (CommandInfo.accepts_iff.mpr hcount)]
      exact hp (c.body args) s
    · rw [dispatchWith_of_not_admits hc hcount]
      simp only [attemptsOfCall, hfind, if_neg (mt CommandInfo.accepts_iff.mp hcount)]
      exact .of_history_eq rfl
  · rw [dispatchWith_of_unknown hname]
    simp only [attemptsOfCall, Registry.find?_eq_none_iff.mpr hname]
    exact .of_history_eq rfl

theorem grows_execTokensWith (s : Session) (line : String) (tokens : List String) :
    s.Grows (s.execTokensWith perform line tokens).2 (s.attemptsOf within line (.ok tokens)) := by
  cases ha : s.isActive with
  | false =>
    simp only [execTokensWith, attemptsOf, ha]
    exact .of_not_enters rfl rfl
  | true =>
    simp only [execTokensWith, attemptsOf, ha, if_true]
    cases tokens with
    | nil => exact .of_not_enters rfl rfl
    | cons token tokens =>
      have hcall := grows_dispatchWith hp (s.log line) (substitute s.vars token)
        (tokens.map (substitute s.vars))
      refine .of_log rfl (hcall.congr ?_)
      simp only [List.map_cons]
      generalize (s.log line).dispatchWith perform _ _ = outcome
      obtain ⟨failure | code?, t⟩ := outcome
      · rfl
      · cases code? <;> rfl

theorem grows_execWith (s : Session) (line : String) :
    s.Grows (s.execWith perform line).2 (s.attemptsOf within line (Line.tokenize line)) := by
  cases hr : Line.tokenize line with
  | ok tokens =>
    rw [execWith_of_tokenize hr]
    exact grows_execTokensWith hp s line tokens
  | error fault =>
    cases ha : s.isActive <;> simp only [execWith, attemptsOf, ha, hr] <;>
      exact .of_not_enters rfl rfl

theorem grows_performWith (a : Action) (s : Session) :
    s.Grows (a.performWith perform s).2 (a.attemptsWith perform within s) := by
  induction a generalizing s with
  | done code => exact .of_history_eq rfl
  | fail cause => exact .of_history_eq rfl
  | inspect next ih => exact ih s.view s
  | record line next ih =>
    obtain ⟨text, isError⟩ := line
    cases isError with
    | false => exact ih (s.record text)
    | true => exact ih (s.recordError text)
  | clear next ih => exact ih s.clear
  | set name value next ih => exact ih (s.set name value)
  | unset name next ih => exact ih (s.unset name)
  | reset shell user host next ih => exact ih (s.reset shell user host)
  | exit code next ih => exact ih (s.exit code)
  | exec line next ih =>
    have hline := grows_execWith hp s line
    simp only [Action.performWith, Action.attemptsWith]
    generalize s.execWith perform line = outcome at hline ⊢
    obtain ⟨failure | _, t⟩ := outcome
    · exact hline.trans (ih (some failure) t)
    · exact hline.trans (ih none t)
  | execTokens line tokens next ih =>
    have hline := grows_execTokensWith hp s line tokens
    simp only [Action.performWith, Action.attemptsWith]
    generalize s.execTokensWith perform line tokens = outcome at hline ⊢
    obtain ⟨failure | _, t⟩ := outcome
    · exact hline.trans (ih (some failure) t)
    · exact hline.trans (ih none t)

end Perform

/-- **A body adds the logged ones of its attempts to the history**, however deeply its lines run
lines. -/
theorem grows_perform : ∀ (depth : Nat) (a : Action) (s : Session),
    s.Grows (a.perform depth s).2 (a.attempts depth s)
  | 0, _, _ => .of_history_eq rfl
  | depth + 1, a, s => grows_performWith (grows_perform depth) a s

/-! ## A session at its own depth -/

/-- The attempts that a call of a command makes. -/
def callAttempts (s : Session) (name : String) (args : List String) : List Attempt :=
  s.attemptsOfCall (Action.attempts nestingLimit) name args

/-- The attempt to run a line that reads so, followed by those that its command makes. -/
def lineAttempts (s : Session) (line : String) (reading : Except Line.Fault (List String)) :
    List Attempt :=
  s.attemptsOf (Action.attempts nestingLimit) line reading

theorem grows_dispatch (s : Session) (name : String) (args : List String) :
    s.Grows (s.dispatch name args).2 (s.callAttempts name args) :=
  grows_dispatchWith (grows_perform nestingLimit) s name args

theorem grows_execTokens (s : Session) (line : String) (tokens : List String) :
    s.Grows (s.execTokens line tokens).2 (s.lineAttempts line (.ok tokens)) :=
  grows_execTokensWith (grows_perform nestingLimit) s line tokens

/-- **A line adds itself, and then what its command logs**, if it is logged at all. -/
theorem grows_exec (s : Session) (line : String) :
    s.Grows (s.exec line).2 (s.lineAttempts line (Line.tokenize line)) :=
  grows_execWith (grows_perform nestingLimit) s line

end Session

end LineShell
