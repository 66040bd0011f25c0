import LineShell.Proofs.Session.Declared
import LineShell.Proofs.Session.Edits

/-!
# Proofs/Session/Writes — the edits that a session makes of its variables

    s ──edit, edit, ⋯──▸ t      variables of t = variables of s, edited   (`Writes`)

Only three operations of a body reach the variables, and a line adds one edit of its own: the exit
code of its command is put under `?` after all that the command itself has put or dropped.
`Action.edits` lists the edits that a body makes, those of the lines that it runs included, and the
variables change by exactly these, however deeply lines run lines and however they end
(`writes_perform`).  For a command that every session starts with, its arguments tell its edits
(`lineEdits_of_builtin`).
-/

namespace LineShell

/-! ## Listing edits

`within` lists the edits of the body of a command, as `perform` performs it. -/

namespace Session

/-- The edits that a call of a command makes: those of its body, if it is performed. -/
def editsOfCall (within : Action → Session → List Edit) (s : Session) (name : String)
    (args : List String) : List Edit :=
  match s.commands.find? name with
  | none => []
  | some c => if c.info.accepts args.length then within (c.body args) s else []

/-- The edit with which a line ends: the exit code of its command, if there is one. -/
def statusEdits : Except Failure (Option Int) → List Edit
  | .ok (some code) => [.put "?" (.int code)]
  | .ok none | .error _ => []

/-- The edits that a line makes that reads so. -/
def editsOf (perform : Action → Session → Outcome Int) (within : Action → Session → List Edit)
    (s : Session) (line : String) (reading : Except Line.Fault (List String)) : List Edit :=
  if s.isActive then
    match reading with
    | .error _ => []
    | .ok tokens =>
        match tokens.map (substitute s.vars) with
        | [] => []
        | name :: args =>
            (s.log line).editsOfCall within name args ++
              statusEdits ((s.log line).dispatchWith perform name args).1
  else []

end Session

namespace Action

open Session

/-- The edits that a body makes. -/
def editsWith (perform : Action → Session → Outcome Int)
    (within : Action → Session → List Edit) : Action → Session → List Edit
  | done _, _ | fail _, _ => []
  | inspect next, s => (next s.view).editsWith perform within s
  | record line next, s =>
      next.editsWith perform within
        (if line.isError then s.recordError line.text else s.record line.text)
  | clear next, s => next.editsWith perform within s.clear
  | set name value next, s => .put name value :: next.editsWith perform within (s.set name value)
  | unset name next, s => .drop name :: next.editsWith perform within (s.unset name)
  | reset shell user host next, s =>
      Edit.reset shell user host ++ next.editsWith perform within (s.reset shell user host)
  | exit code next, s => next.editsWith perform within (s.exit code)
  | exec line next, s =>
      s.editsOf perform within line (Line.tokenize line) ++
        match s.execWith perform line with
        | (.ok (), t) => (next none).editsWith perform within t
        | (.error failure, t) => (next (some failure)).editsWith perform within t
  | execTokens line tokens next, s =>
      s.editsOf perform within line (.ok tokens) ++
        match s.execTokensWith perform line tokens with
        | (.ok (), t) => (next none).editsWith perform within t
        | (.error failure, t) => (next (some failure)).editsWith perform within t

/-- The edits that a body makes, with at most `depth` bodies under way at once. -/
def edits : (depth : Nat) → Action → Session → List Edit
  | 0, _, _ => []
  | depth + 1, a, s => a.editsWith (perform depth) (edits depth) s

/-- Printing edits nothing. -/
theorem editsWith_recordAll {perform : Action → Session → Outcome Int}
    {within : Action → Session → List Edit} {next : Action} {es : List Edit}
    (h : ∀ s, next.editsWith perform within s = es) :
    ∀ (lines : List String) (s : Session), (recordAll lines next).editsWith perform within s = es
  | [], s => h s
  | text :: lines, s => editsWith_recordAll h lines (s.record text)

end Action

/-! ## The variables change by what was edited -/

namespace Session

/-- The variables of the second session are those of the first, edited. -/
def Writes (s t : Session) (edits : List Edit) : Prop := t.vars = s.vars.edited edits

theorem Writes.of_vars_eq {s t : Session} (h : t.vars = s.vars) : s.Writes t [] := h

theorem Writes.trans {s t u : Session} {xs ys : List Edit} (h : s.Writes t xs)
    (h' : t.Writes u ys) : s.Writes u (xs ++ ys) := by
  rw [Writes, h', h, Variables.edited_append]

/-- Only the variables count. -/
theorem Writes.congr {s t u : Session} {xs : List Edit} (h : s.Writes t xs)
    (hu : u.vars = t.vars) : s.Writes u xs := by
  rwa [Writes, hu]

theorem writes_set (s : Session) (name : String) (value : Value) :
    s.Writes (s.set name value) [.put name value] := rfl

theorem writes_unset (s : Session) (name : String) : s.Writes (s.unset name) [.drop name] := rfl

theorem writes_reset (s : Session) (shell user host : String) :
    s.Writes (s.reset shell user host) (Edit.reset shell user host) :=
  (s.vars.edited_reset shell user host).symm

section Perform

variable {perform : Action → Session → Outcome Int} {within : Action → Session → List Edit}
  (hp : ∀ a s, Writes s (perform a s).2 (within a s))

include hp

theorem writes_dispatchWith (s : Session) (name : String) (args : List String) :
    s.Writes (s.dispatchWith perform name args).2 (s.editsOfCall within name args) := by
  by_cases hname : name ∈ s.commands.names
  · obtain ⟨c, hc, rfl⟩ := List.mem_map.mp hname
    have hfind : s.commands.find? c.name = some c := Registry.find?_eq_some_iff.mpr ⟨hc, rfl⟩
    by_cases hcount : c.info.Admits args.length
    · rw [dispatchWith_of_admits hc hcount]
      simp only [editsOfCall, hfind, if_pos (CommandInfo.accepts_iff.mpr hcount)]
      exact hp (c.body args) s
    · rw [dispatchWith_of_not_admits hc hcount]
      simp only [editsOfCall, hfind, if_neg (mt CommandInfo.accepts_iff.mp hcount)]
      exact .of_vars_eq rfl
  · rw [dispatchWith_of_unknown hname]
    simp only [editsOfCall, Registry.find?_eq_none_iff.mpr hname]
    exact .of_vars_eq rfl

theorem writes_execTokensWith (s : Session) (line : String) (tokens : List String) :
    s.Writes (s.execTokensWith perform line tokens).2
      (s.editsOf perform within line (.ok tokens)) := by
  cases ha : s.isActive with
  | false =>
    simp only [execTokensWith, editsOf, ha]
    exact .of_vars_eq rfl
  | true =>
    simp only [execTokensWith, editsOf, ha, if_true]
    cases tokens with
    | nil => exact .of_vars_eq rfl
    | cons token tokens =>
      have hcall := writes_dispatchWith hp (s.log line) (substitute s.vars token)
        (tokens.map (substitute s.vars))
      simp only [List.map_cons]
      generalize (s.log line).dispatchWith perform _ _ = outcome at hcall ⊢
      obtain ⟨failure | code?, t⟩ := outcome
      · exact hcall.trans (.of_vars_eq rfl)
      · cases code? with
        | none => exact hcall.trans (.of_vars_eq rfl)
        | some code => exact hcall.trans (writes_set t "?" (.int code))

theorem writes_execWith (s : Session) (line : String) :
    s.Writes (s.execWith perform line).2 (s.editsOf perform within line (Line.tokenize line)) := by
  cases hr : Line.tokenize line with
  | ok tokens =>
    rw [execWith_of_tokenize hr]
    exact writes_execTokensWith hp s line tokens
  | error fault =>
    cases ha : s.isActive <;> simp only [execWith, editsOf, ha, hr] <;> exact .of_vars_eq rfl

theorem writes_performWith (a : Action) (s : Session) :
    s.Writes (a.performWith perform s).2 (a.editsWith perform within s) := by
  induction a generalizing s with
  | done code => exact .of_vars_eq rfl
  | fail cause => exact .of_vars_eq rfl
  | inspect next ih => exact ih s.view s
  | record line next ih =>
    obtain ⟨text, isError⟩ := line
    cases isError with
    | false => exact ih (s.record text)
    | true => exact ih (s.recordError text)
  | clear next ih => exact ih s.clear
  | set name value next ih => exact (s.writes_set name value).trans (ih (s.set name value))
  | unset name next ih => exact (s.writes_unset name).trans (ih (s.unset name))
  | reset shell user host next ih =>
    exact (s.writes_reset shell user host).trans (ih (s.reset shell user host))
  | exit code next ih => exact ih (s.exit code)
  | exec line next ih =>
    have hline := writes_execWith hp s line
    simp only [Action.performWith, Action.editsWith]
    generalize s.execWith perform line = outcome at hline ⊢
    obtain ⟨failure | _, t⟩ := outcome
    · exact hline.trans (ih (some failure) t)
    · exact hline.trans (ih none t)
  | execTokens line tokens next ih =>
    have hline := writes_execTokensWith hp s line tokens
    simp only [Action.performWith, Action.editsWith]
    generalize s.execTokensWith perform line tokens = outcome at hline ⊢
    obtain ⟨failure | _, t⟩ := outcome
    · exact hline.trans (ih (some failure) t)
    · exact hline.trans (ih none t)

end Perform

/-- **A body changes the variables by its edits**, however deeply its lines run lines. -/
theorem writes_perform : ∀ (depth : Nat) (a : Action) (s : Session),
    s.Writes (a.perform depth s).2 (a.edits depth s)
  | 0, _, _ => .of_vars_eq rfl
  | depth + 1, a, s => writes_performWith (writes_perform depth) a s

/-! ## A session at its own depth -/

/-- The edits that a call of a command makes. -/
def callEdits (s : Session) (name : String) (args : List String) : List Edit :=
  s.editsOfCall (Action.edits nestingLimit) name args

/-- The edits that a line makes that reads so. -/
def lineEdits (s : Session) (line : String) (reading : Except Line.Fault (List String)) :
    List Edit :=
  s.editsOf (Action.perform nestingLimit) (Action.edits nestingLimit) line reading

theorem writes_dispatch (s : Session) (name : String) (args : List String) :
    s.Writes (s.dispatch name args).2 (s.callEdits name args) :=
  writes_dispatchWith (writes_perform nestingLimit) s name args

theorem writes_execTokens (s : Session) (line : String) (tokens : List String) :
    s.Writes (s.execTokens line tokens).2 (s.lineEdits line (.ok tokens)) :=
  writes_execTokensWith (writes_perform nestingLimit) s line tokens

/-- **A line changes the variables by what its command edits, and then by its exit code.** -/
theorem writes_exec (s : Session) (line : String) :
    s.Writes (s.exec line).2 (s.lineEdits line (Line.tokenize line)) :=
  writes_execWith (writes_perform nestingLimit) s line

/-- A line that stands for a name and arguments makes the edits of the call, and then one for its
exit code if there is one. -/
theorem lineEdits_of_means {s : Session} {line name : String} {args : List String}
    {reading : Except Line.Fault (List String)} (ha : s.isActive = true)
    (h : s.Means reading name args) :
    s.lineEdits line reading = (s.log line).callEdits name args ++
      statusEdits ((s.log line).dispatch name args).1 := by
  obtain ⟨tokens, rfl, hw⟩ := h
  simp only [lineEdits, editsOf, if_pos ha, map_substitute_eq_iff.mpr hw]
  rfl

/-- A line that calls no command edits nothing… -/
theorem lineEdits_of_not_calls {s : Session} {line : String}
    {reading : Except Line.Fault (List String)}
    (h : s.isActive = true → ∀ c args, ¬ s.Calls reading c args) :
    s.lineEdits line reading = [] := by
  cases ha : s.isActive with
  | false => simp only [lineEdits, editsOf, ha, Bool.false_eq_true, if_false]
  | true =>
    match reading with
    | .error fault => simp only [lineEdits, editsOf, if_pos ha]
    | .ok [] => simp only [lineEdits, editsOf, if_pos ha, List.map_nil]
    | .ok (token :: tokens) =>
      have hmeans : s.Means (.ok (token :: tokens)) (substitute s.vars token)
          (tokens.map (substitute s.vars)) := ⟨_, rfl, map_substitute_eq_iff.mp rfl⟩
      have hname : substitute s.vars token ∉ (s.log line).commands.names := by
        intro hmem
        obtain ⟨c, hc, hcname⟩ := List.mem_map.mp hmem
        exact h ha c _ ⟨hc, hcname ▸ hmeans⟩
      rw [lineEdits_of_means ha hmeans, callEdits, editsOfCall,
        Registry.find?_eq_none_iff.mpr hname, dispatch, dispatchWith_of_unknown hname]
      rfl

/-- …one that calls a command makes the edits of its body, and then one for its exit code if it has
returned… -/
theorem lineEdits_of_calls {s : Session} {line : String} {c : Command CommandBody}
    {args : List String} {reading : Except Line.Fault (List String)} (ha : s.isActive = true)
    (hc : s.Calls reading c args) (hcount : c.info.Admits args.length) :
    s.lineEdits line reading = (c.body args).edits nestingLimit (s.log line) ++
      statusEdits (((c.body args).perform nestingLimit (s.log line)).1.map some) := by
  have hmem : c ∈ (s.log line).commands.commands := hc.registered
  rw [lineEdits_of_means ha hc.words, callEdits, editsOfCall,
    Registry.find?_eq_some_iff.mpr ⟨hmem, rfl⟩, dispatch, dispatchWith_of_admits hmem hcount]
  simp only [if_pos (CommandInfo.accepts_iff.mpr hcount)]

/-- …and a number of arguments out of bounds is the exit code 1 and no other edit. -/
theorem lineEdits_of_not_admits {s : Session} {line : String} {c : Command CommandBody}
    {args : List String} {reading : Except Line.Fault (List String)} (ha : s.isActive = true)
    (hc : s.Calls reading c args) (hcount : ¬ c.info.Admits args.length) :
    s.lineEdits line reading = [.put "?" (.int 1)] := by
  have hmem : c ∈ (s.log line).commands.commands := hc.registered
  rw [lineEdits_of_means ha hc.words, callEdits, editsOfCall,
    Registry.find?_eq_some_iff.mpr ⟨hmem, rfl⟩, dispatch, dispatchWith_of_not_admits hmem hcount]
  simp only [if_neg (mt CommandInfo.accepts_iff.mp hcount)]
  rfl

end Session

/-! ## The commands every session starts with

Only `declare` and `unset` edit, and what they edit can be read off their arguments. -/

namespace Builtin

/-- The edits of a command that every session starts with. -/
def edits : (name : String) → (args : List String) → List Edit
  | "declare", declaration :: _ =>
      match Text.pieces '=' declaration with
      | [name] => [.put name (.text "")]
      | [name, value] => [.put name (.text value)]
      | _ => []
  | "unset", name :: _ => [.drop name]
  | _, _ => []

section Perform

variable {perform : Action → Session → Session.Outcome Int}
  {within : Action → Session → List Edit}

theorem editsWith_man (args : List String) (s : Session) :
    (man args).editsWith perform within s = [] := by
  cases args with
  | nil => exact Action.editsWith_recordAll (fun _ => rfl) _ _
  | cons name names =>
    refine Action.editsWith_recordAll (fun t => ?_) _ s
    split <;> rfl

theorem editsWith_declare : ∀ (args : List String) (s : Session),
    (declare args).editsWith perform within s = edits "declare" args
  | [], s => Action.editsWith_recordAll (fun _ => rfl) s.vars.listing s
  | declaration :: rest, s => by
    simp only [declare, edits]
    rcases Text.pieces '=' declaration with _ | ⟨_, _ | ⟨_, _ | _⟩⟩ <;> rfl

theorem editsWith_unset : ∀ (args : List String) (s : Session),
    (unset args).editsWith perform within s = edits "unset" args
  | [], _ => rfl
  | _ :: _, _ => rfl

theorem editsWith_history (args : List String) (s : Session) :
    (history args).editsWith perform within s = [] :=
  Action.editsWith_recordAll (fun _ => rfl) (historyLines s.history.toList) s

/-- **The commands every session starts with edit what their arguments tell**, in every session. -/
theorem editsWith_builtin : ∀ c ∈ registry.commands, ∀ (args : List String) (s : Session),
    (c.body args).editsWith perform within s = edits c.name args :=
  forall_mem_registry editsWith_man editsWith_declare editsWith_unset editsWith_history

end Perform

end Builtin

namespace Session

/-- **A line that calls such a command edits what its arguments tell, and then the exit code.** -/
theorem lineEdits_of_builtin {s : Session} {line : String} {c : Command CommandBody}
    {args : List String} {reading : Except Line.Fault (List String)} (ha : s.isActive = true)
    (hbuiltin : c ∈ Builtin.commands) (hc : s.Calls reading c args)
    (hcount : c.info.Admits args.length) :
    ∃ code, Builtin.IsCode code ∧
      s.lineEdits line reading = Builtin.edits c.name args ++ [.put "?" (.int code)] := by
  obtain ⟨code, t, hcode, hend⟩ := (Builtin.yields_builtin c hbuiltin args).exists_performWith
    (Action.perform 199) (s.log line)
  have hperform : (c.body args).perform nestingLimit (s.log line) = (.ok code, t) := hend
  have hedits : (c.body args).edits nestingLimit (s.log line) = Builtin.edits c.name args :=
    Builtin.editsWith_builtin c hbuiltin args (s.log line)
  refine ⟨code, hcode, ?_⟩
  rw [lineEdits_of_calls ha hc hcount, hperform, hedits]
  rfl

end Session

end LineShell
