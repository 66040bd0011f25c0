import LineShell.Proofs.Session.Answers

/-!
# Proofs/Session/Invariant — what a session of the built-in commands keeps

    start ──line──▸ s₁ ──line──▸ s₂ ──line──▸ ⋯   (each `Settled`)

Between two lines the session is active, its commands are the ones it started with, the variable `?`
is zero or one, and every other variable is a text under a name without `=`.  While a command runs,
`?` may be removed or be any text; all the rest holds at every moment (`Tidy`), and the exit code
that the command returns puts `?` right again.  So no line ever fails (`Settled.exec`), whatever
lines came before it (`settled_typed_start`).
-/

namespace LineShell

/-! ## Variables -/

/-- Every variable but `?` is a text, and no name holds `=`. -/
structure Variables.Plain (t : Variables) : Prop where
  isText : ∀ name value, t.get? name = some value → name ≠ "?" → ∃ text, value = .text text
  noEquals : ∀ name ∈ t.names, '=' ∉ name.toList

namespace Variables

theorem plain_initial (shell user host : String) : (initial shell user host).Plain where
  isText name value hv hne := by
    simp only [get?, initial, lookupEntry, if_neg (Ne.symm hne)] at hv
    split_ifs at hv <;> cases hv <;> exact ⟨_, rfl⟩
  noEquals name hn := by
    simp only [names, initial, List.map_cons, List.map_nil, List.mem_cons, List.not_mem_nil,
      or_false] at hn
    rcases hn with rfl | rfl | rfl | rfl | rfl <;> decide

theorem Plain.set {t : Variables} (h : t.Plain) {name : String} {value : Value}
    (hname : '=' ∉ name.toList) (hvalue : name ≠ "?" → ∃ text, value = .text text) :
    (t.set name value).Plain where
  isText other v hv hne := by
    rw [get?_set] at hv
    split at hv
    · next heq =>
      cases hv
      exact hvalue (heq ▸ hne)
    · exact h.isText other v hv hne
  noEquals other hn := by
    rw [names_set] at hn
    split at hn
    · exact h.noEquals other hn
    · rcases List.mem_append.mp hn with hn | hn
      · exact h.noEquals other hn
      · exact List.mem_singleton.mp hn ▸ hname

theorem Plain.erase {t : Variables} (h : t.Plain) (name : String) : (t.erase name).Plain where
  isText other v hv hne := by
    rw [get?_erase] at hv
    split at hv
    · cases hv
    · exact h.isText other v hv hne
  noEquals other hn := by
    rw [names_erase] at hn
    exact h.noEquals other (List.mem_of_mem_filter hn)

end Variables

/-! ## Inside a line -/

/-- What holds of a session of the built-in commands at every moment. -/
structure Session.Tidy (s : Session) : Prop where
  active : s.isActive = true
  commands : s.commands = Builtin.registry
  vars : s.vars.Plain

namespace Action

/-- The body neither runs a line nor ends the session, and every variable that it sets becomes a
text under a name without `=`. -/
def Tame : Action → Prop
  | done _ => True
  | inspect next => ∀ view, (next view).Tame
  | set name value next => ('=' ∉ name.toList ∧ ∃ text, value = .text text) ∧ next.Tame
  | record _ next | clear next | unset _ next | reset _ _ _ next => next.Tame
  | fail _ | exit _ _ | exec _ _ | execTokens _ _ _ => False

theorem Does.tidy {a : Action} {s t : Session} {result : Except Failure Int}
    (h : Does a s result t) (ha : a.Tame) (hs : s.Tidy) : t.Tidy := by
  induction h with
  | done => exact hs
  | fail | exit => exact ha.elim
  | inspect _ ih => exact ih (ha _) hs
  | record _ ih | recordError _ ih | clear _ ih => exact ih ha ⟨hs.active, hs.commands, hs.vars⟩
  | set _ ih =>
    obtain ⟨⟨hname, hvalue⟩, ha⟩ := ha
    exact ih ha ⟨hs.active, hs.commands, hs.vars.set hname fun _ => hvalue⟩
  | unset _ ih => exact ih ha ⟨hs.active, hs.commands, hs.vars.erase _⟩
  | reset _ ih => exact ih ha ⟨hs.active, hs.commands, Variables.plain_initial _ _ _⟩

theorem tame_done (code : Int) : (done code).Tame := trivial

theorem tame_recordAll {next : Action} (h : next.Tame) :
    ∀ lines : List String, (recordAll lines next).Tame
  | [] => h
  | _ :: lines => tame_recordAll h lines

end Action

namespace Builtin

theorem tame_man (args : List String) : (man args).Tame := by
  intro view
  cases args with
  | nil => exact Action.tame_recordAll (Action.tame_done 0) _
  | cons name names =>
    refine Action.tame_recordAll ?_ _
    split <;> trivial

/-- What a declaration names stands before its first `=`. -/
theorem tame_declare : ∀ args : List String, (declare args).Tame
  | [] => fun view => Action.tame_recordAll (Action.tame_done 0) view.vars.listing
  | declaration :: _ => by
    have hpieces : ∀ piece ∈ Text.pieces '=' declaration, '=' ∉ piece.toList :=
      fun _ => Text.notMem_of_mem_pieces
    simp only [declare]
    split
    · next name hp => exact ⟨⟨hpieces name (by simp [hp]), _, rfl⟩, trivial⟩
    · next name value hp => exact ⟨⟨hpieces name (by simp [hp]), _, rfl⟩, trivial⟩
    · trivial

theorem tame_unset : ∀ args : List String, (unset args).Tame
  | [] => trivial
  | _ :: _ => trivial

theorem tame_history (args : List String) : (history args).Tame :=
  fun view => Action.tame_recordAll (Action.tame_done 0) (historyLines view.history)

/-- **The commands every session starts with are tame.** -/
theorem tame_builtin : ∀ c ∈ registry.commands, ∀ args, (c.body args).Tame :=
  forall_mem_registry tame_man tame_declare tame_unset tame_history

/-- `unset` is called with exactly the argument that it reads. -/
theorem count_of_admits_unset : ∀ c ∈ registry.commands, c.name = "unset" →
    ∀ count, c.info.Admits count → count = 1 := by
  refine forall_mem_registry (fun hname => ?_) (fun hname => ?_) (fun _ count hcount => ?_)
    (fun hname => ?_)
  · exact absurd hname (by decide)
  · exact absurd hname (by decide)
  · have hge : (1 : Int) ≤ count := hcount.1
    have hle : (count : Int) ≤ 1 := hcount.2 1 rfl
    omega
  · exact absurd hname (by decide)

end Builtin

/-! ## Between lines -/

namespace Session

/-- What holds of a session of the built-in commands between two lines. -/
structure Settled (s : Session) : Prop extends Tidy s where
  /-- The last command has succeeded or complained. -/
  status : ∃ code, Builtin.IsCode code ∧ s.vars.get? "?" = some (.int code)

theorem settled_start (shell user host : String) :
    (start shell user host Builtin.registry).Settled where
  active := rfl
  commands := rfl
  vars := Variables.plain_initial shell user host
  status := ⟨0, .inl rfl, rfl⟩

/-- Whatever a command has left of `?`, the exit code settles it. -/
theorem Tidy.settled {s : Session} (h : s.Tidy) {code : Int} (hcode : Builtin.IsCode code) :
    (s.set "?" (.int code)).Settled where
  active := h.active
  commands := h.commands
  vars := h.vars.set (by decide) fun hne => absurd rfl hne
  status := ⟨code, hcode, by simp only [set, Variables.get?_set, if_pos]⟩

/-- An answer settles the session if the bodies that it may perform are tidy and return a code. -/
theorem Settled.answer {Ends : Action → Session → Except Failure Int → Session → Prop}
    {s t : Session} {line : String} {reading : Except Line.Fault (List String)}
    {result : Except Failure Unit} (hs : s.Settled) (h : Answer Ends s line reading result t)
    (hends : ∀ c ∈ Builtin.registry.commands, ∀ args {u result v}, u.Tidy →
      Ends (c.body args) u result v → v.Tidy ∧ ∃ code, Builtin.IsCode code ∧ result = .ok code) :
    result = .ok () ∧ t.Settled := by
  have hlog : (s.log line).Tidy := ⟨hs.active, hs.commands, hs.vars⟩
  cases h with
  | inactive ha => simp [hs.active] at ha
  | unreadable ha hr => exact ⟨rfl, ⟨hs.active, hs.commands, hs.vars⟩, hs.status⟩
  | blank ha hr => exact ⟨rfl, hs⟩
  | unknown ha hm hn => exact ⟨rfl, ⟨hs.active, hs.commands, hs.vars⟩, hs.status⟩
  | @wrongCount c args ha hc hcount =>
    have htidy : ((s.log line).recordError
        (c.name ++ ": wrong number of arguments. Usage: " ++ c.info.usage)).Tidy :=
      ⟨hs.active, hs.commands, hs.vars⟩
    exact ⟨rfl, htidy.settled (.inr rfl)⟩
  | returned ha hc hcount hend =>
    obtain ⟨ht, code, hcode, hresult⟩ := hends _ (hs.commands ▸ hc.registered) _ hlog hend
    cases hresult
    exact ⟨rfl, ht.settled hcode⟩
  | failed ha hc hcount hend =>
    obtain ⟨-, code, -, hresult⟩ := hends _ (hs.commands ▸ hc.registered) _ hlog hend
    cases hresult

/-- **No line fails in a settled session, and every line leaves it settled.** -/
theorem Settled.exec {s : Session} (hs : s.Settled) (line : String) :
    (s.exec line).1 = .ok () ∧ (s.exec line).2.Settled := by
  obtain ⟨result, t, ha⟩ :=
    exists_answer (Action.perform nestingLimit) s line (Line.tokenize line)
  have hexec : s.exec line = (result, t) := ha.execWith
  rw [hexec]
  refine hs.answer ha fun c hc args {u result v} hu hend => ?_
  have hyields := Builtin.yields_builtin c hc args
  have hdoes : (c.body args).Does u result v :=
    (Action.performWith_eq_iff_does hyields.runsNoLine).mp hend
  exact ⟨hdoes.tidy (Builtin.tame_builtin c hc args) hu, hdoes.exists_code hyields⟩

/-- The session after lines, whatever has become of each. -/
def typed (s : Session) (lines : List String) : Session :=
  lines.foldl (fun s line => (s.exec line).2) s

theorem typed_cons (s : Session) (line : String) (rest : List String) :
    s.typed (line :: rest) = (s.exec line).2.typed rest := rfl

theorem Settled.typed : ∀ {s : Session}, s.Settled → ∀ lines, (s.typed lines).Settled
  | _, hs, [] => hs
  | s, hs, line :: rest => by
    rw [typed_cons]
    exact (hs.exec line).2.typed rest

/-- **A session of the built-in commands stays settled**, whatever lines are typed into it: none of
them fails, and `unset`, which reads its argument, is only ever called with one. -/
theorem settled_typed_start (shell user host : String) (lines : List String) :
    let s := (start shell user host Builtin.registry).typed lines
    s.Settled ∧ (∀ line, (s.exec line).1 = .ok ()) ∧
      ∀ line c args, s.Calls (Line.tokenize line) c args → c.info.Admits args.length →
        c.name = "unset" → args.length = 1 := by
  intro s
  have hs : s.Settled := (settled_start shell user host).typed lines
  refine ⟨hs, fun line => (hs.exec line).1, fun line c args hc hcount hname => ?_⟩
  exact Builtin.count_of_admits_unset c (hs.commands ▸ hc.registered) hname _ hcount

/-- Lines that go for `?`, for a name with `=` and for the name of the shell itself. -/
theorem settled_typed_start_attacked :
    let lines := ["unset ?", "declare ?=x", "declare =x", "declare a=b=c", "unset SHELL", "$NONE",
      "unset", "'x"]
    let s := (start "tsh" "guest" "box" Builtin.registry).typed lines
    s.Settled ∧ (s.exec "declare").1 = .ok () ∧ s.vars.get? "?" = some (.int 1) := by
  intro lines s
  obtain ⟨hs, hexec, -⟩ := settled_typed_start "tsh" "guest" "box" lines
  exact ⟨hs, hexec "declare", by decide +kernel⟩

end Session

end LineShell
