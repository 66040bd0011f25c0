import LineShell.Session.Builtin
import Mathlib.Data.Nat.Find

/-!
# Proofs/Session/Registration — what registering makes of a registry

    {} ──batch──▸ r₁ ──batch──▸ r₂ ──batch──▸ ⋯      (`Registry.registered`)

A batch is registered up to the first command whose name is taken, by the registry or by a command
before it in the batch (`register_of_taken`, `register_of_free`).  So every call, whether it fails
or not, adds some first part of its batch at the end (`Registers`), and the registry is the log of
these additions (`registrations_registered`): nothing in it is ever replaced, moved or removed.
-/

namespace LineShell

/-- A command can be made under a name that is not empty and holds no blank, and under no other. -/
theorem CommandInfo.exists_make_iff {name usage description : String} {minArgs : Int}
    {maxArgs : Option Int} :
    (∃ info, make name usage description minArgs maxArgs = .ok info ∧ info.name = name) ↔
      name ≠ "" ∧ ∀ c ∈ name.toList, Text.isBlank c = false := by
  rw [← isCommandName_iff]
  by_cases h : isCommandName name = true
  · exact iff_of_true ⟨_, dif_pos h, rfl⟩ h
  · refine iff_of_false ?_ h
    rintro ⟨info, hmake, -⟩
    rw [make, dif_neg h] at hmake
    cases hmake

namespace Registry

variable {Body : Type}

/-! ## One call -/

/-- The name at a place of a batch is taken: it is among some names or stands earlier in the
batch. -/
def Taken (names : List String) (batch : List (Command Body)) (i : Nat) : Prop :=
  ∃ c, batch[i]? = some c ∧ c.name ∈ names ++ (batch.take i).map Command.name

theorem taken_zero {names : List String} {c : Command Body} {rest : List (Command Body)} :
    Taken names (c :: rest) 0 ↔ c.name ∈ names := by simp [Taken]

theorem taken_succ {names : List String} {c : Command Body} {rest : List (Command Body)}
    {i : Nat} : Taken names (c :: rest) (i + 1) ↔ Taken (names ++ [c.name]) rest i := by
  simp [Taken]

theorem contains_eq_false_iff {r : Registry Body} {name : String} :
    r.contains name = false ↔ name ∉ r.names := by simp [contains]

theorem names_add (r : Registry Body) (c : Command Body) (h : r.contains c.name = false) :
    (r.add c h).names = r.names ++ [c.name] := by simp [names, commands_add]

/-- A registry is determined by its commands. -/
theorem eq_of_commands : ∀ {r t : Registry Body}, r.commands = t.commands → r = t
  | ⟨_, _⟩, ⟨_, _⟩, rfl => rfl

/-- **A batch whose names are all free is added as a whole…** -/
theorem register_of_free : ∀ {batch : List (Command Body)} {r : Registry Body},
    (∀ i, ¬ Taken r.names batch i) →
      ∃ t, r.register batch = (.ok (), t) ∧ t.commands = r.commands ++ batch
  | [], r, _ => ⟨r, rfl, (List.append_nil _).symm⟩
  | c :: rest, r, h => by
    have hfree : r.contains c.name = false :=
      contains_eq_false_iff.mpr fun hc => h 0 (taken_zero.mpr hc)
    have hrest : ∀ i, ¬ Taken (r.add c hfree).names rest i := fun i hi =>
      h (i + 1) (taken_succ.mpr (names_add r c hfree ▸ hi))
    obtain ⟨t, ht, hcommands⟩ := register_of_free hrest
    refine ⟨t, ?_, ?_⟩
    · rw [register, dif_pos hfree, ht]
    · rw [hcommands, commands_add, List.append_assoc, List.singleton_append]

/-- **…and the first name that is taken stops a batch**, with what stands before it added. -/
theorem register_of_taken : ∀ {i : Nat} {batch : List (Command Body)} {r : Registry Body}
    {c : Command Body}, batch[i]? = some c → Taken r.names batch i →
      (∀ j < i, ¬ Taken r.names batch j) → ∃ t, r.register batch = (.error (.nameTaken c.name), t) ∧
        t.commands = r.commands ++ batch.take i
  | _, [], _, _, hc, _, _ => by cases hc
  | 0, d :: rest, r, c, hc, hi, _ => by
    obtain rfl : d = c := Option.some.inj hc
    have htaken : ¬ r.contains d.name = false := fun hfree =>
      contains_eq_false_iff.mp hfree (taken_zero.mp hi)
    exact ⟨r, by rw [register, dif_neg htaken], (List.append_nil _).symm⟩
  | i + 1, d :: rest, r, c, hc, hi, hj => by
    have hfree : r.contains d.name = false :=
      contains_eq_false_iff.mpr fun hd => hj 0 (Nat.succ_pos i) (taken_zero.mpr hd)
    have hnames := names_add r d hfree
    rw [List.getElem?_cons_succ] at hc
    have hfirst : ∀ j < i, ¬ Taken (r.add d hfree).names rest j := fun j hji hj' =>
      hj (j + 1) (Nat.succ_lt_succ hji) (taken_succ.mpr (hnames ▸ hj'))
    rw [taken_succ, ← hnames] at hi
    obtain ⟨t, ht, hcommands⟩ := register_of_taken hc hi hfirst
    refine ⟨t, ?_, ?_⟩
    · rw [register, dif_pos hfree, ht]
    · rw [hcommands, commands_add, List.append_assoc, List.singleton_append, List.take_succ_cons]

section Behind

variable {batch : List (Command Body)} {i j : Nat} (hi : i < batch.length) (hj : j ≤ i)
  (others : List (Command Body))

include hi hj

theorem getElem?_take_append : (batch.take (i + 1) ++ others)[j]? = batch[j]? := by
  have hlength : (batch.take (i + 1)).length = i + 1 := List.length_take_of_le hi
  rw [List.getElem?_append_left (by omega), List.getElem?_take_of_lt (by omega)]

theorem take_take_append : (batch.take (i + 1) ++ others).take j = batch.take j := by
  have hlength : (batch.take (i + 1)).length = i + 1 := List.length_take_of_le hi
  rw [List.take_append_of_le_length (by omega), List.take_take, Nat.min_eq_left (by omega)]

/-- What stands behind a place of a batch does not bear on the names up to it… -/
theorem taken_take_append {names : List String} :
    Taken names (batch.take (i + 1) ++ others) j ↔ Taken names batch j := by
  rw [Taken, Taken, getElem?_take_append hi hj, take_take_append hi hj]

end Behind

/-- …so nothing behind the first name that is taken is looked at. -/
theorem register_take_append {batch : List (Command Body)} {r : Registry Body} {i : Nat}
    {c : Command Body} (hc : batch[i]? = some c) (hi : Taken r.names batch i)
    (hj : ∀ j < i, ¬ Taken r.names batch j) (others : List (Command Body)) :
    r.register (batch.take (i + 1) ++ others) = r.register batch := by
  obtain ⟨hlt, -⟩ := List.getElem?_eq_some_iff.mp hc
  have hget : (batch.take (i + 1) ++ others)[i]? = some c :=
    (getElem?_take_append hlt (Nat.le_refl i) others).trans hc
  have htaken : Taken r.names (batch.take (i + 1) ++ others) i :=
    (taken_take_append hlt (Nat.le_refl i) others).mpr hi
  have hfirst : ∀ j < i, ¬ Taken r.names (batch.take (i + 1) ++ others) j := fun j hji =>
    mt (taken_take_append hlt (Nat.le_of_lt hji) others).mp (hj j hji)
  obtain ⟨t, ht, htc⟩ := register_of_taken hget htaken hfirst
  obtain ⟨u, hu, huc⟩ := register_of_taken hc hi hj
  rw [take_take_append hlt (Nat.le_refl i) others, ← huc] at htc
  rw [ht, hu, eq_of_commands htc]

/-- Some place is the first whose name is taken, unless none is. -/
theorem Taken.exists_first {names : List String} {batch : List (Command Body)} {i : Nat}
    (h : Taken names batch i) : ∃ i c, batch[i]? = some c ∧ Taken names batch i ∧
      ∀ j < i, ¬ Taken names batch j := by
  classical
  have hex : ∃ i, Taken names batch i := ⟨i, h⟩
  obtain ⟨c, hc, -⟩ := Nat.find_spec hex
  exact ⟨_, c, hc, Nat.find_spec hex, fun j hj => Nat.find_min hex hj⟩

/-- What a call with a batch registers, given the names that are taken before it, and its result. -/
inductive Registers (names : List String) (batch : List (Command Body)) :
    Except CommandFault Unit → List (Command Body) → Prop
  | all : (∀ i, ¬ Taken names batch i) → Registers names batch (.ok ()) batch
  | stopped {i : Nat} {c : Command Body} : batch[i]? = some c → Taken names batch i →
      (∀ j < i, ¬ Taken names batch j) →
      Registers names batch (.error (.nameTaken c.name)) (batch.take i)

theorem exists_registers (names : List String) (batch : List (Command Body)) :
    ∃ result front, Registers names batch result front := by
  by_cases h : ∃ i, Taken names batch i
  · obtain ⟨i, hi⟩ := h
    obtain ⟨k, c, hc, hk, hfirst⟩ := hi.exists_first
    exact ⟨_, _, .stopped hc hk hfirst⟩
  · exact ⟨_, _, .all fun i hi => h ⟨i, hi⟩⟩

theorem Registers.register {r : Registry Body} {batch front : List (Command Body)}
    {result : Except CommandFault Unit} (h : Registers r.names batch result front) :
    ∃ t, r.register batch = (result, t) ∧ t.commands = r.commands ++ front := by
  cases h with
  | all hfree => exact register_of_free hfree
  | stopped hc hi hj => exact register_of_taken hc hi hj

/-! ## Calls in order -/

/-- The registry after calls in order, whether they fail or not. -/
def registered (r : Registry Body) (calls : List (List (Command Body))) : Registry Body :=
  calls.foldl (fun r batch => (r.register batch).2) r

/-- The commands that calls register one after the other, given the names that are taken before
them. -/
inductive Registrations : List String → List (List (Command Body)) → List (Command Body) → Prop
  | nil {names : List String} : Registrations names [] []
  | cons {names : List String} {batch front log : List (Command Body)}
      {calls : List (List (Command Body))} {result : Except CommandFault Unit} :
      Registers names batch result front →
      Registrations (names ++ front.map Command.name) calls log →
      Registrations names (batch :: calls) (front ++ log)

/-- **Calls add their registrations in order**, at the end of what was there. -/
theorem exists_registrations : ∀ (calls : List (List (Command Body))) (r : Registry Body),
    ∃ log, Registrations r.names calls log ∧ (r.registered calls).commands = r.commands ++ log
  | [], r => ⟨[], .nil, (List.append_nil _).symm⟩
  | batch :: calls, r => by
    obtain ⟨result, front, hfront⟩ := exists_registers r.names batch
    obtain ⟨t, ht, hcommands⟩ := hfront.register
    obtain ⟨log, hlog, hcalls⟩ := exists_registrations calls t
    have hnames : t.names = r.names ++ front.map Command.name := by
      simp only [names, hcommands, List.map_append]
    refine ⟨front ++ log, .cons hfront (hnames ▸ hlog), ?_⟩
    have hstep : r.registered (batch :: calls) = t.registered calls := by
      rw [registered, List.foldl_cons, ht]
      rfl
    rw [hstep, hcalls, hcommands, List.append_assoc]

/-- A command keeps its place… -/
theorem commands_prefix_registered (r : Registry Body) (calls : List (List (Command Body))) :
    r.commands <+: (r.registered calls).commands := by
  obtain ⟨log, -, hcalls⟩ := exists_registrations calls r
  rw [hcalls]
  exact List.prefix_append _ _

/-- …and stays the one of its name. -/
theorem find?_registered {r : Registry Body} {name : String} {c : Command Body}
    (h : r.find? name = some c) (calls : List (List (Command Body))) :
    (r.registered calls).find? name = some c := by
  rw [find?_eq_some_iff] at h ⊢
  exact ⟨(r.commands_prefix_registered calls).subset h.1, h.2⟩

theorem name_of_mem_names {r : Registry Body} {name : String} (h : name ∈ r.names) :
    name ≠ "" ∧ ∀ c ∈ name.toList, Text.isBlank c = false := by
  obtain ⟨c, -, rfl⟩ := List.mem_map.mp h
  exact isCommandName_iff.mp c.info.validName

/-- **What registering makes of a registry.**  Commands are made under names that are not empty and
hold no blank, and under no other.  A registry that calls have built from nothing, failing or not,
lists what they have registered in the order in which they did; its names are distinct, finding a
name gives the one command that bears it, and no further call replaces, moves or removes a command.
A call fails if and only if some name of its batch is taken, by the registry or earlier in the
batch; then the first such name is the one complained about, what stands before it has been added,
and nothing behind it is looked at. -/
theorem registered_law :
    (∀ (name usage description : String) (minArgs : Int) (maxArgs : Option Int),
      (∃ info, CommandInfo.make name usage description minArgs maxArgs = .ok info ∧
        info.name = name) ↔ name ≠ "" ∧ ∀ c ∈ name.toList, Text.isBlank c = false) ∧
    (∀ calls : List (List (Command Body)),
      let r := ({} : Registry Body).registered calls
      Registrations [] calls r.commands ∧
      (r.names.Nodup ∧ ∀ name ∈ r.names, name ≠ "" ∧ ∀ c ∈ name.toList, Text.isBlank c = false) ∧
      (∀ name, (∀ c, r.find? name = some c ↔ c ∈ r.commands ∧ c.name = name) ∧
        (r.find? name = none ↔ name ∉ r.names)) ∧
      ∀ more, r.commands <+: (r.registered more).commands ∧
        ∀ name c, r.find? name = some c → (r.registered more).find? name = some c) ∧
    ∀ (r : Registry Body) (batch : List (Command Body)),
      ((∃ fault, (r.register batch).1 = .error fault) ↔ ∃ i, Taken r.names batch i) ∧
      (∀ i c, batch[i]? = some c → Taken r.names batch i → (∀ j < i, ¬ Taken r.names batch j) →
        (∃ fault, (r.register batch).1 = .error fault ∧ fault = .nameTaken c.name ∧
          fault.message = "Command '" ++ c.name ++ "' is already registered") ∧
        (r.register batch).2.commands = r.commands ++ batch.take i ∧
        ∀ others, r.register (batch.take (i + 1) ++ others) = r.register batch) ∧
      ((∀ i, ¬ Taken r.names batch i) →
        (r.register batch).1 = .ok () ∧ (r.register batch).2.commands = r.commands ++ batch) := by
  refine ⟨fun name usage description minArgs maxArgs => CommandInfo.exists_make_iff,
    fun calls => ?_, fun r batch => ⟨⟨?_, ?_⟩, fun i c hc hi hj => ?_, fun hfree => ?_⟩⟩
  · intro r
    obtain ⟨log, hlog, hcalls⟩ := exists_registrations calls ({} : Registry Body)
    have hcommands : r.commands = log := hcalls
    refine ⟨hcommands ▸ hlog, ⟨r.nodup, fun name => name_of_mem_names⟩,
      fun name => ⟨fun c => find?_eq_some_iff, find?_eq_none_iff⟩, fun more => ?_⟩
    exact ⟨r.commands_prefix_registered more, fun name c hc => find?_registered hc more⟩
  · rintro ⟨fault, hfault⟩
    by_contra hfree
    obtain ⟨t, ht, -⟩ := register_of_free fun i hi => hfree ⟨i, hi⟩
    rw [ht] at hfault
    cases hfault
  · rintro ⟨i, hi⟩
    obtain ⟨k, c, hc, hk, hfirst⟩ := hi.exists_first
    obtain ⟨t, ht, -⟩ := register_of_taken hc hk hfirst
    exact ⟨_, congrArg Prod.fst ht⟩
  · obtain ⟨t, ht, hcommands⟩ := register_of_taken hc hi hj
    refine ⟨⟨.nameTaken c.name, congrArg Prod.fst ht, rfl, rfl⟩, ?_, register_take_append hc hi hj⟩
    rw [ht, hcommands]
  · obtain ⟨t, ht, hcommands⟩ := register_of_free hfree
    rw [ht]
    exact ⟨rfl, hcommands⟩

/-- `declare` and `unset` are registered; a second call registers `history`, stops at the `unset`
behind it, and has not looked at what follows. -/
theorem registered_law_stopped :
    let first := [Builtin.commands[1], Builtin.commands[2]]
    let batch := [Builtin.commands[3], Builtin.commands[2], Builtin.commands[0]]
    let r := ({} : Registry CommandBody).registered [first]
    r.commands = first ∧ (r.registered [batch]).find? "unset" = some Builtin.commands[2] ∧
      (∃ fault, (r.register batch).1 = .error fault ∧
        fault.message = "Command 'unset' is already registered") ∧
      (r.register batch).2.commands = first ++ [Builtin.commands[3]] ∧
      r.register (batch.take 2) = r.register batch := by
  intro first batch r
  obtain ⟨-, hbuilt, hcall⟩ := @registered_law CommandBody
  obtain ⟨-, -, hfind, hmore⟩ := hbuilt [first]
  have hfirstCall : r.commands = first := rfl
  have hunset : r.find? "unset" = some Builtin.commands[2] := by
    refine ((hfind "unset").1 _).mpr ⟨?_, rfl⟩
    rw [hfirstCall]
    exact List.mem_cons_of_mem _ List.mem_cons_self
  have hnames : r.names = ["declare", "unset"] := rfl
  have hstop : Taken r.names batch 1 := ⟨Builtin.commands[2], rfl, by decide⟩
  have hfree : ∀ j < 1, ¬ Taken r.names batch j := by
    intro j hj
    obtain rfl : j = 0 := by omega
    rw [hnames, taken_zero]
    decide
  obtain ⟨⟨fault, hfault, -, hmessage⟩, hcommands, hbehind⟩ :=
    (hcall r batch).2.1 1 _ rfl hstop hfree
  exact ⟨hfirstCall, (hmore [batch]).2 _ _ hunset, ⟨fault, hfault, hmessage⟩, hcommands, hbehind []⟩

end Registry

end LineShell
