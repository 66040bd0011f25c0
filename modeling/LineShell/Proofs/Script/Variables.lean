import LineShell.Proofs.Script.History
import LineShell.Proofs.Session.Writes

/-!
# Proofs/Script/Variables — the table of variables after any operations

    fresh session ──operation──▸ s₁ ──operation──▸ ⋯ ──▸ s      variables of s = { }, edited

Every operation makes some edits, and the variables of a session are what its first reset and the
edits of all its operations make of the empty table (`writes_operated`).  So the laws of
`Proofs/Session/Edits` hold of every session that there is: each name stands once, with the value
that was put last, and the names stand in the order of their last insertions.  `declare` without
arguments shows the table as it was before the line (`exec_declare_listing`), and `?` comes back
last when a line removes it (`exec_unset_status`).
-/

namespace LineShell

open Script

/-! ## Scripts -/

namespace Script

/-- The edits that the commands of a script make in a session. -/
def edits : List String → Session → List Edit
  | [], _ => []
  | line :: rest, s =>
      if isCommand line then
        if s.isActive then
          s.lineEdits line (Line.tokenize line) ++
            match s.exec line with
            | (.ok (), t) => edits rest t
            | (.error _, _) => []
        else []
      else edits rest s

theorem edits_of_not_isCommand {line : String} (h : isCommand line = false)
    (rest : List String) (s : Session) : edits (line :: rest) s = edits rest s := by
  simp [edits, h]

theorem edits_of_exec {line : String} {s t : Session} {result : Except LineShell.Failure Unit}
    (hc : isCommand line = true) (ha : s.isActive = true) (hx : s.exec line = (result, t))
    (rest : List String) : edits (line :: rest) s =
      s.lineEdits line (Line.tokenize line) ++ if result.isOk then edits rest t else [] := by
  simp only [edits, hc, ha, if_true, hx]
  cases result <;> rfl

namespace Runner

variable {path line : String} {number : Nat} {r r' : Runner}

/-- What a passed line edits stands before what the rest of the script edits. -/
theorem Pass.writes (h : Pass path number line r r') {rest : List String} {t : Session}
    (ht : r'.session.Writes t (edits rest r'.session)) :
    r.session.Writes t (edits (line :: rest) r.session) := by
  cases h with
  | skipped hc =>
    rw [edits_of_not_isCommand (isCommand_of_isComment hc)]
    exact ht
  | noted hf =>
    rw [edits_of_not_isCommand (isCommand_of_fault? hf)]
    exact ht
  | ran hc ha hx =>
    have hline := Session.writes_exec r.session line
    rw [hx] at hline
    rw [edits_of_exec hc ha hx]
    exact hline.trans ht

/-- A line that halts a script is the last that edits, if it does. -/
theorem Halt.writes {result : Except LineShell.Failure Unit} (h : Halt line r result r')
    (rest : List String) : r.session.Writes r'.session (edits (line :: rest) r.session) := by
  cases h with
  | stopped hc ha =>
    simp only [edits, hc, ha]
    exact .of_vars_eq rfl
  | failed hc ha hx =>
    have hline := Session.writes_exec r.session line
    rw [hx] at hline
    rw [edits_of_exec hc ha hx]
    exact hline.trans (.of_vars_eq rfl)

/-- **A script changes the variables by its edits**, wherever it stops. -/
theorem writes_runFrom (path : String) : ∀ (lines : List String) (number : Nat) (r : Runner),
    r.session.Writes (runFrom path number lines r).2.session (edits lines r.session)
  | [], _, _ => .of_vars_eq rfl
  | line :: rest, number, r => by
    obtain ⟨r', hp⟩ | ⟨result, r', hh⟩ := pass_or_halt path number line r
    · rw [hp.runFrom]
      exact hp.writes (writes_runFrom path rest (number + 1) r')
    · rw [hh.runFrom]
      exact hh.writes rest

end Runner

end Script

namespace Session

/-! ## Operations -/

/-- The edits that an operation makes. -/
def operationEdits (s : Session) : Operation → List Edit
  | .exec line => s.lineEdits line (Line.tokenize line)
  | .execTokens line tokens => s.lineEdits line (.ok tokens)
  | .dispatch name args => s.callEdits name args
  | .perform body => body.edits nestingLimit s
  | .runLines _ lines _ => Script.edits lines s
  | .set name value => [.put name value]
  | .unset name => [.drop name]
  | .reset shell user host => Edit.reset shell user host
  | .register _ | .clear | .exit _ => []

/-- The edits that operations make one after another. -/
def editsOver : Session → List Operation → List Edit
  | _, [] => []
  | s, operation :: rest => s.operationEdits operation ++ (s.operate operation).editsOver rest

/-- **An operation changes the variables by its edits.** -/
theorem writes_operate (s : Session) : ∀ operation : Operation,
    s.Writes (s.operate operation) (s.operationEdits operation)
  | .exec line => writes_exec s line
  | .execTokens line tokens => writes_execTokens s line tokens
  | .dispatch name args => writes_dispatch s name args
  | .perform body => writes_perform nestingLimit body s
  | .runLines runner lines path => Runner.writes_runFrom path lines 1 { runner with session := s }
  | .set name value => s.writes_set name value
  | .unset name => s.writes_unset name
  | .reset shell user host => s.writes_reset shell user host
  | .register _ | .clear | .exit _ => .of_vars_eq rfl

/-- …and so do any number of operations. -/
theorem writes_operated : ∀ (operations : List Operation) (s : Session),
    s.Writes (s.operated operations) (s.editsOver operations)
  | [], _ => .of_vars_eq rfl
  | operation :: rest, s => (writes_operate s operation).trans (writes_operated rest _)

/-- A fresh session has the variables of a reset. -/
theorem vars_start (shell user host : String) (commands : Registry CommandBody) :
    (start shell user host commands).vars = .ofEdits (Edit.reset shell user host) :=
  (Variables.edited_reset {} shell user host).symm

/-- The edits of a fresh session make its table of the empty one. -/
theorem vars_operated_start (shell user host : String) (commands : Registry CommandBody)
    (operations : List Operation) :
    ((start shell user host commands).operated operations).vars =
      .ofEdits (Edit.reset shell user host ++
        (start shell user host commands).editsOver operations) := by
  have h := writes_operated operations (start shell user host commands)
  rw [h, vars_start, Variables.ofEdits, Variables.ofEdits, Variables.edited_append]

/-! ## What `declare` shows -/

/-- The line of a listing that shows a variable. -/
def listingLine (name : String) (value : Value) : String :=
  "(" ++ value.typeName ++ ") " ++ name ++ "=" ++ value.render

/-- A listing has one line for each name, in the order of the table. -/
theorem forall₂_listing (t : Variables) :
    List.Forall₂ (fun name text => ∃ value, t.get? name = some value ∧
      text = listingLine name value) t.names t.listing := by
  rw [Variables.names, Variables.listing, List.forall₂_map_left_iff, List.forall₂_map_right_iff,
    List.forall₂_same]
  rintro ⟨name, value⟩ h
  exact ⟨value, Variables.mem_entries_iff.mp h, rfl⟩

/-- **`declare` without arguments prints the variables as they are before the line.** -/
theorem exec_declare_listing {s : Session} (ha : s.isActive = true)
    (hc : Builtin.commands[1] ∈ s.commands.commands) :
    s.exec "declare" =
      (.ok (), ((s.log "declare").recordLines s.vars.listing).set "?" (.int 0)) := by
  have hcalls : s.Calls (Line.tokenize "declare") Builtin.commands[1] [] :=
    ⟨hc, ["declare"], by decide, .cons (.plain (by decide)) .nil⟩
  have hcount : Builtin.commands[1].info.Admits 0 := CommandInfo.accepts_iff.mp (by decide)
  have hbody : (Builtin.commands[1].body []).perform nestingLimit (s.log "declare") = _ :=
    Action.performWith_recordAll s.vars.listing (s.log "declare")
  rw [exec_of_calls ha hcalls hcount, hbody]
  rfl

/-- **A line that removes `?` puts it back**, at the end. -/
theorem exec_unset_status {s : Session} (ha : s.isActive = true)
    (hc : Builtin.commands[2] ∈ s.commands.commands) :
    s.exec "unset ?" = (.ok (), ((s.log "unset ?").unset "?").set "?" (.int 0)) := by
  have hcalls : s.Calls (Line.tokenize "unset ?") Builtin.commands[2] ["?"] :=
    ⟨hc, ["unset", "?"], by decide, .cons (.plain (by decide)) (.cons (.plain (by decide)) .nil)⟩
  have hcount : Builtin.commands[2].info.Admits 1 := CommandInfo.accepts_iff.mp (by decide)
  rw [exec_of_calls ha hcalls hcount]
  rfl

/-- **The laws of the table of variables.**  Whatever has been asked of a session since it was
fresh, its table is what the edits of a reset and of all operations since make of the empty one:
each name stands once, with the value that the last edit concerning it has put, and the names stand
in the order in which each was last put into a table that lacked it.  A line that calls no command
edits nothing, and one that calls a command that every session starts with makes the edits that its
arguments tell, and one for its exit code; so `?` goes last when such a line removes it, and
`declare` shows each variable as it is before the line. -/
theorem vars_operated (shell user host : String) (commands : Registry CommandBody)
    (operations : List Operation) :
    let fresh := start shell user host commands
    let edits := Edit.reset shell user host ++ fresh.editsOver operations
    let s := fresh.operated operations
    s.vars = .ofEdits edits ∧
    s.vars.names.Nodup ∧
    (∀ name value, s.vars.get? name = some value ↔ Variables.LastPut edits name value) ∧
    (∀ name, name ∈ s.vars.names ↔ ∃ value, s.vars.get? name = some value) ∧
    (∀ name ∈ s.vars.names, ∃ i, Variables.LastInserted edits name i) ∧
    (s.vars.names.Pairwise fun a b => ∀ i j,
      Variables.LastInserted edits a i → Variables.LastInserted edits b j → i < j) ∧
    (∀ name value, (s.set name value).vars.names =
      if name ∈ s.vars.names then s.vars.names else s.vars.names ++ [name]) ∧
    (∀ name, (s.unset name).vars.names = s.vars.names.filter (· ≠ name)) ∧
    (∀ name value, ((s.unset name).set name value).vars.names =
      s.vars.names.filter (· ≠ name) ++ [name]) ∧
    (∀ shell user host, (s.reset shell user host).vars.entries =
      [("?", .int 0), ("SHELL", .text shell), ("USER", .text user), ("HOST", .text host),
        ("HISTORY", .text "")]) ∧
    (∀ line reading, (s.isActive = true → ∀ c args, ¬ s.Calls reading c args) →
      s.lineEdits line reading = []) ∧
    (s.isActive = true → ∀ c ∈ Builtin.commands, ∀ line reading args, s.Calls reading c args →
      (c.info.Admits args.length → ∃ code, Builtin.IsCode code ∧
        s.lineEdits line reading = Builtin.edits c.name args ++ [.put "?" (.int code)]) ∧
      (¬ c.info.Admits args.length → s.lineEdits line reading = [.put "?" (.int 1)])) ∧
    ((∀ c ∈ Builtin.commands, c ∈ commands.commands) → s.isActive = true →
      (s.exec "unset ?").2.vars.names = s.vars.names.filter (· ≠ "?") ++ ["?"] ∧
      ∃ (lines : List String) (u : Session), s.exec "declare" = (.ok (), u) ∧
        u.output.events.toList =
          s.output.events.toList ++ lines.map (fun text => .line ⟨text, false⟩) ∧
        List.Forall₂ (fun name text => ∃ value, s.vars.get? name = some value ∧
          text = listingLine name value) s.vars.names lines) := by
  intro fresh edits s
  have hvars : s.vars = .ofEdits edits := vars_operated_start shell user host commands operations
  have hordered : Variables.Ordered edits := Variables.ordered_ofEdits edits
  refine ⟨hvars, s.vars.nodup, fun name value => ?_, fun name => Variables.mem_names_iff, ?_, ?_,
    s.vars.names_set, s.vars.names_erase, s.vars.names_erase_set, fun _ _ _ => rfl,
    fun line reading => lineEdits_of_not_calls,
    fun ha c hbuiltin line reading args hc => ⟨fun hcount => ?_, fun hcount => ?_⟩,
    fun hbuiltin ha => ⟨?_, ?_⟩⟩
  · rw [hvars]
    exact Variables.get?_ofEdits_eq_some_iff edits
  · rw [hvars]
    exact hordered.inserted
  · rw [hvars]
    exact hordered.increasing
  · exact lineEdits_of_builtin ha hbuiltin hc hcount
  · exact lineEdits_of_not_admits ha hc hcount
  · have hc : Builtin.commands[2] ∈ s.commands.commands :=
      (changes_operated operations fresh).mem_commands (hbuiltin _ (List.getElem_mem _))
    rw [exec_unset_status ha hc]
    exact s.vars.names_erase_set "?" (.int 0)
  · have hc : Builtin.commands[1] ∈ s.commands.commands :=
      (changes_operated operations fresh).mem_commands (hbuiltin _ (List.getElem_mem _))
    exact ⟨s.vars.listing, _, exec_declare_listing ha hc,
      events_recordLines s.vars.listing (s.log "declare"), forall₂_listing s.vars⟩

/-- A variable keeps its place when it is declared again, `?` loses it to a line, and another comes
back last. -/
theorem vars_operated_again :
    let operations : List Operation := [.set "A" (.int 1), .exec "declare B=2", .exec "unset ?",
      .exec "declare A=3", .unset "B", .runLines { session := start "" "" "" {} } ["declare B"] ""]
    let s := (start "tsh" "guest" "box" Builtin.registry).operated operations
    s.vars.names = ["SHELL", "USER", "HOST", "HISTORY", "A", "?", "B"] ∧
      Variables.LastPut (Edit.reset "tsh" "guest" "box" ++
        (start "tsh" "guest" "box" Builtin.registry).editsOver operations) "A" (.text "3") ∧
      ∃ (lines : List String) (u : Session), s.exec "declare" = (.ok (), u) ∧ lines.length = 7 ∧
        u.output.events.toList =
          s.output.events.toList ++ lines.map (fun text => .line ⟨text, false⟩) := by
  intro operations s
  have hnames : s.vars.names = ["SHELL", "USER", "HOST", "HISTORY", "A", "?", "B"] := by
    decide +kernel
  obtain ⟨-, -, hget, -, -, -, -, -, -, -, -, -, hlines⟩ :=
    vars_operated "tsh" "guest" "box" Builtin.registry operations
  obtain ⟨-, lines, u, hexec, hevents, hlisting⟩ := hlines (fun _ hc => hc) (by decide +kernel)
  refine ⟨hnames, (hget "A" (.text "3")).mp (by decide +kernel), lines, u, hexec, ?_, hevents⟩
  rw [← hlisting.length_eq]
  exact congrArg List.length hnames

end Session

end LineShell
