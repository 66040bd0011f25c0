import LineShell.Proofs.Session.Declared
import LineShell.Proofs.Session.Printing
import LineShell.Proofs.Session.Registration

/-!
# Proofs/Session/Manual — looking names up, and what the manual says about them

    names ──subset──▸ found, missing ──man──▸ a line for each found, a complaint, an exit code

A name of the list is either known, and then its command is among the found once, in the place of
its first mention, or it is missing, and then every mention is kept (`Picks`).  Registering what is
found name by name cannot fail, because a command is found under its own name and a name that is
there already is skipped (`lookUp_eq`).
-/

namespace LineShell

namespace Registry

variable {Body : Type} {r found : Registry Body} {names : List String} {name : String}
  {c : Command Body}

/-! ## One more name -/

theorem contains_iff : r.contains name = true ↔ name ∈ r.names := by simp [contains]

/-- What one more name makes of the found commands. -/
def pick (r found : Registry Body) (name : String) : Registry Body :=
  match r.find? name with
  | none => found
  | some c => if h : found.contains c.name = false then found.add c h else found

theorem pick_of_unknown (h : r.find? name = none) : r.pick found name = found := by
  simp only [pick, h]

theorem pick_of_found (h : r.find? name = some c) (hfound : found.contains name = true) :
    r.pick found name = found := by
  obtain ⟨-, rfl⟩ := find?_eq_some_iff.mp h
  have hold : ¬ found.contains c.name = false := by simp [hfound]
  simp only [pick, h, dif_neg hold]

theorem pick_of_new (h : r.find? name = some c) (hnew : found.contains c.name = false) :
    r.pick found name = found.add c hnew := by
  simp only [pick, h, dif_pos hnew]

/-- The commands that a list of names picks from a registry. -/
structure Picks (r : Registry Body) (names : List String) (found : Registry Body) : Prop where
  /-- They are commands of the registry… -/
  registered : found.commands ⊆ r.commands
  /-- …those that bear the names of the list… -/
  mentioned : ∀ name, name ∈ found.names ↔ name ∈ names ∧ name ∈ r.names
  /-- …each once, in order of first mention. -/
  order : found.names.Pairwise fun a b => names.idxOf a < names.idxOf b

theorem Picks.nil : r.Picks [] {} where
  registered := List.nil_subset _
  mentioned name := by simp [Registry.names]
  order := .nil

/-- The order of first mentions stays when names are mentioned behind. -/
theorem Picks.order_append (h : r.Picks names found) (others : List String) :
    found.names.Pairwise fun a b => (names ++ others).idxOf a < (names ++ others).idxOf b := by
  refine h.order.imp_of_mem fun {a b} ha hb hab => ?_
  have hmention := ((h.mentioned a).mp ha).1
  have hmention' := ((h.mentioned b).mp hb).1
  rwa [List.idxOf_append_of_mem hmention, List.idxOf_append_of_mem hmention']

/-- A name that is unknown, or mentioned again, picks nothing… -/
theorem Picks.concat_of_mem (h : r.Picks names found) (hname : name ∈ r.names → name ∈ names) :
    r.Picks (names ++ [name]) found where
  registered := h.registered
  mentioned other := by
    rw [h.mentioned other, List.mem_append, List.mem_singleton]
    refine and_congr_left fun hother => ⟨.inl, ?_⟩
    rintro (hold | rfl)
    · exact hold
    · exact hname hother
  order := h.order_append [name]

/-- …and a known name that is mentioned for the first time picks its command. -/
theorem Picks.concat_of_new (h : r.Picks names found) (hc : c ∈ r.commands)
    (hnew : found.contains c.name = false) : r.Picks (names ++ [c.name]) (found.add c hnew) := by
  have hknown : c.name ∈ r.names := List.mem_map_of_mem hc
  have hfirst : c.name ∉ names := fun hold =>
    contains_eq_false_iff.mp hnew ((h.mentioned _).mpr ⟨hold, hknown⟩)
  refine ⟨?_, fun other => ?_, ?_⟩
  · rw [commands_add]
    exact List.append_subset.mpr ⟨h.registered, by simpa using hc⟩
  · rw [names_add, List.mem_append, List.mem_append, List.mem_singleton, h.mentioned other,
      or_and_right]
    exact or_congr_right ⟨fun e => ⟨e, e ▸ hknown⟩, And.left⟩
  · rw [names_add, List.pairwise_append]
    refine ⟨h.order_append [c.name], List.pairwise_singleton _ _, fun a ha b hb => ?_⟩
    obtain rfl := List.mem_singleton.mp hb
    have hmention := ((h.mentioned a).mp ha).1
    rw [List.idxOf_append_of_mem hmention, List.idxOf_append_of_notMem hfirst]
    exact Nat.lt_of_lt_of_le (List.idxOf_lt_length_of_mem hmention) (Nat.le_add_right _ _)

/-- Any name keeps to the rule… -/
theorem Picks.pick (h : r.Picks names found) (name : String) :
    r.Picks (names ++ [name]) (r.pick found name) := by
  cases hc : r.find? name with
  | none =>
    rw [pick_of_unknown hc]
    exact h.concat_of_mem fun hname => absurd hname (find?_eq_none_iff.mp hc)
  | some c =>
    obtain ⟨hmem, rfl⟩ := find?_eq_some_iff.mp hc
    cases hfound : found.contains c.name with
    | false =>
      rw [pick_of_new hc hfound]
      exact h.concat_of_new hmem hfound
    | true =>
      rw [pick_of_found hc hfound]
      exact h.concat_of_mem fun _ => ((h.mentioned _).mp (contains_iff.mp hfound)).1

/-- …and so do any number of names. -/
theorem Picks.foldl_pick : ∀ (rest : List String) {front : List String} {found : Registry Body},
    r.Picks front found → r.Picks (front ++ rest) (rest.foldl r.pick found)
  | [], front, _, h => by rwa [List.append_nil]
  | name :: rest, front, _, h => by
    have hrest := (h.pick name).foldl_pick rest
    rwa [List.append_assoc, List.singleton_append] at hrest

/-- **A list of names picks the commands of its known names**, in order of first mention. -/
theorem picks_restrict (r : Registry Body) (names : List String) :
    r.Picks names (r.restrict names) := Picks.nil.foldl_pick names

/-- A picked name stands for the command for which it stood. -/
theorem Picks.find?_eq (h : r.Picks names found) (hname : name ∈ found.names) :
    found.find? name = r.find? name := by
  obtain ⟨c, hc, rfl⟩ := List.mem_map.mp hname
  rw [find?_eq_some_iff.mpr ⟨hc, rfl⟩, find?_eq_some_iff.mpr ⟨h.registered hc, rfl⟩]

/-! ## Finding and registering -/

/-- Looks names up one by one: registers what is found, unless its name is there already, and
collects the names that are not. -/
def lookUp (r : Registry Body) : List String → Registry Body → List String →
    Except CommandFault (Registry Body × List String)
  | [], found, missing => .ok (found, missing)
  | name :: rest, found, missing =>
      match r.find? name with
      | none => r.lookUp rest found (missing ++ [name])
      | some c =>
          if found.contains name then r.lookUp rest found missing
          else
            match found.register [c] with
            | (.ok (), more) => r.lookUp rest more missing
            | (.error fault, _) => .error fault

theorem register_singleton (h : found.contains c.name = false) :
    found.register [c] = (.ok (), found.add c h) := by
  rw [register, dif_pos h, register]

/-- Looking names up never fails. -/
theorem lookUp_eq (r : Registry Body) : ∀ (names : List String) (found : Registry Body)
    (missing : List String), r.lookUp names found missing =
      .ok (names.foldl r.pick found, missing ++ names.filter (!r.contains ·))
  | [], found, missing => by simp [lookUp]
  | name :: rest, found, missing => by
    cases hc : r.find? name with
    | none =>
      have hname : r.contains name = false :=
        contains_eq_false_iff.mpr (find?_eq_none_iff.mp hc)
      simp only [lookUp, hc, lookUp_eq r rest, List.foldl_cons, pick_of_unknown hc]
      simp [hname]
    | some c =>
      obtain ⟨hmem, rfl⟩ := find?_eq_some_iff.mp hc
      have hname : r.contains c.name = true := contains_iff.mpr (List.mem_map_of_mem hmem)
      cases hfound : found.contains c.name with
      | false =>
        simp only [lookUp, hc, hfound, register_singleton hfound, lookUp_eq r rest,
          List.foldl_cons, pick_of_new hc hfound]
        simp [hname]
      | true =>
        simp only [lookUp, hc, hfound, lookUp_eq r rest, List.foldl_cons, pick_of_found hc hfound]
        simp [hname]

theorem lookUp_eq_subset (r : Registry Body) (names : List String) :
    r.lookUp names {} [] = .ok (r.subset names) := r.lookUp_eq names {} []

/-! ## Without the bodies -/

theorem find?_forget (r : Registry Body) (name : String) :
    r.forget.find? name = (r.find? name).map Command.forget := by
  simp only [find?, forget, List.find?_map]
  rfl

theorem contains_forget (r : Registry Body) (name : String) :
    r.forget.contains name = r.contains name := by rw [contains, names_forget, contains]

theorem forget_pick (r found : Registry Body) (name : String) :
    r.forget.pick found.forget name = (r.pick found name).forget := by
  cases hc : r.find? name with
  | none =>
    have hc' : r.forget.find? name = none := by rw [find?_forget, hc, Option.map_none]
    rw [pick_of_unknown hc, pick_of_unknown hc']
  | some c =>
    have hc' : r.forget.find? name = some c.forget := by rw [find?_forget, hc, Option.map_some]
    obtain ⟨-, rfl⟩ := find?_eq_some_iff.mp hc
    cases hfound : found.contains c.name with
    | false =>
      have hfound' : found.forget.contains c.forget.name = false :=
        (contains_forget found c.name).trans hfound
      rw [pick_of_new hc hfound, pick_of_new hc' hfound']
      refine eq_of_commands ?_
      simp only [commands_add, forget, List.map_append, List.map_cons, List.map_nil]
    | true =>
      rw [pick_of_found hc hfound, pick_of_found hc' ((contains_forget found c.name).trans hfound)]

/-- The bodies do not matter for what is found and what is missing. -/
theorem subset_forget (r : Registry Body) (names : List String) :
    r.forget.subset names = ((r.subset names).1.forget, (r.subset names).2) := by
  have hfold : names.foldl r.forget.pick (forget {}) = (names.foldl r.pick {}).forget :=
    List.foldl_hom forget (forget_pick r)
  have hrestrict : r.forget.restrict names = (r.restrict names).forget := hfold
  rw [subset, hrestrict]
  simp only [contains_forget, subset]

end Registry

/-! ## The manual -/

theorem pushn_eq_append (s : String) (c : Char) : ∀ n : Nat,
    s.pushn c n = s ++ String.ofList (List.replicate n c)
  | 0 => by rw [String.pushn_eq_repeat_push]; simp [Nat.repeat]
  | n + 1 => by
    have hn := pushn_eq_append s c n
    rw [String.pushn_eq_repeat_push] at hn ⊢
    rw [Nat.repeat, hn, ← String.toList_inj]
    simp [List.replicate_succ']

/-- The line that describes a command: its usage, filled up with spaces to 23 characters, and its
description. -/
def Command.entry {Body : Type} (c : Command Body) : String :=
  "  " ++ (c.info.usage ++ String.ofList (List.replicate (23 - c.info.usage.length) ' ')) ++
    c.info.description

theorem manualLine_eq_entry {Body : Type} (c : Command Body) :
    Builtin.manualLine c.info = c.entry := by
  rw [Builtin.manualLine, Text.padRight, pushn_eq_append]
  rfl

namespace Session

theorem find?_man : Builtin.registry.find? "man" = some Builtin.commands[0] :=
  Registry.find?_eq_some_iff.mpr ⟨List.getElem_mem _, rfl⟩

/-- What is found is shown… -/
theorem perform_manualOf {s : Session} {r : Registry CommandBody} {next : Action} {depth : Nat} :
    (Builtin.manualOf r.forget next).performWith (Action.perform depth) s =
      next.performWith (Action.perform depth)
        (s.printed (r.commands.map fun c => .line ⟨c.entry, false⟩)) := by
  have hlines : (r.forget.commands.map fun c => Builtin.manualLine c.info) =
      r.commands.map Command.entry := by
    rw [Registry.forget, List.map_map]
    exact List.map_congr_left fun c _ => manualLine_eq_entry c
  rw [Builtin.manualOf, hlines, Action.performWith_recordAll, recordLines_eq_printed, List.map_map]
  rfl

/-- What `man` prints about found commands and missing names. -/
def report (found : Registry CommandBody) (missing : List String) : List OutputEvent :=
  (found.commands.map fun c => .line ⟨c.entry, false⟩) ++
    if missing = [] then [] else
      [.line ⟨"  No manual entry for command(s): '" ++ "', '".intercalate missing ++ "'", true⟩]

/-- …and what is missing is complained about. -/
theorem perform_man {s : Session} {args : List String} (h : args ≠ []) (depth : Nat) :
    let found := (s.commands.subset args).1
    let missing := (s.commands.subset args).2
    (Builtin.man args).perform (depth + 1) s =
      (.ok (if missing = [] then 0 else 1), s.printed (report found missing)) := by
  obtain ⟨name, rest, rfl⟩ := List.exists_cons_of_ne_nil h
  intro found missing
  rw [Action.perform, Builtin.man, Action.performWith]
  simp only [view, Registry.subset_forget, perform_manualOf]
  by_cases hmissing : missing = []
  · rw [if_pos hmissing, if_pos hmissing, report, if_pos hmissing, List.append_nil]
    rfl
  · rw [if_neg hmissing, if_neg hmissing, report, if_neg hmissing, ← printed_printed]
    rfl

/-- **A list of names is parted without loss, and `man` reports the parts.**  Looking names up one
by one never fails.  It finds the commands of the known names, each once, in order of first mention,
and each name stands for the command for which it stood; the unknown names are missing, in order and
as often as they are mentioned.  A line or words that call `man` with arguments print a line for
each found command and, if any name is missing, one complaint that quotes all of them; then the exit
code is 1, and else it is 0.  The line enters the history, and nothing else changes. -/
theorem man_reports_subset :
    (∀ (Body : Type) (r : Registry Body) (names : List String),
      let found := (r.subset names).1
      let missing := (r.subset names).2
      r.lookUp names {} [] = .ok (found, missing) ∧
      (∀ name, name ∈ found.names ↔ name ∈ names ∧ name ∈ r.names) ∧
      found.names.Pairwise (fun a b => names.idxOf a < names.idxOf b) ∧
      (∀ name ∈ found.names, found.find? name = r.find? name) ∧
      missing = names.filter (· ∉ r.names)) ∧
    ∀ (s : Session) (line : String) (reading : Except Line.Fault (List String))
      (m : Command CommandBody) (args : List String),
      s.isActive = true → Builtin.registry.find? "man" = some m → s.Calls reading m args →
      args ≠ [] →
      let found := (s.commands.subset args).1
      let missing := (s.commands.subset args).2
      ∃ t, (reading = Line.tokenize line → s.exec line = (.ok (), t)) ∧
        (∀ tokens, reading = .ok tokens → s.execTokens line tokens = (.ok (), t)) ∧
        t.output.events.toList = s.output.events.toList ++ report found missing ∧
        t.vars.get? "?" = some (.int (if missing = [] then 0 else 1)) ∧
        (∀ other, other ≠ "?" → t.vars.get? other = s.vars.get? other) ∧
        t.commands = s.commands ∧ t.history = s.history.push line ∧ t.exitCode = s.exitCode := by
  refine ⟨fun Body r names => ?_, fun s line reading m args ha hm hc hargs => ?_⟩
  · intro found missing
    have hpicks : r.Picks names found := r.picks_restrict names
    refine ⟨r.lookUp_eq_subset names, hpicks.mentioned, hpicks.order,
      fun name hname => hpicks.find?_eq hname, List.filter_congr fun name _ => ?_⟩
    simp [Registry.contains]
  · intro found missing
    obtain rfl := Option.some.inj (hm.symm.trans find?_man)
    have hadmits : Builtin.commands[0].info.Admits args.length := ⟨Int.natCast_nonneg _, nofun⟩
    let code : Int := if missing = [] then 0 else 1
    have hbody : (Builtin.commands[0].body args).perform nestingLimit (s.log line) =
        (.ok code, (s.log line).printed (report found missing)) := perform_man hargs 199
    let t := ((s.log line).printed (report found missing)).set "?" (.int code)
    have hget : ∀ other, t.vars.get? other =
        if other = "?" then some (.int code) else s.vars.get? other :=
      fun other => Variables.get?_set _ _ _ _
    refine ⟨t, ?_, ?_, Array.toList_append, by rw [hget, if_pos rfl],
      fun other hne => by rw [hget, if_neg hne], rfl, rfl, rfl⟩
    · rintro rfl
      rw [exec_of_calls ha hc hadmits, hbody]
      rfl
    · rintro tokens rfl
      rw [execTokens_of_calls ha hc hadmits, hbody]
      rfl

/-- Known, unknown and repeated names in turn; a variable that is not set gives an empty name. -/
theorem man_reports_subset_mixed :
    let s := start "tsh" "guest" "box" Builtin.registry
    let line := "man unset cd unset $DIR man cd"
    let names := ["unset", "cd", "unset", "", "man", "cd"]
    s.commands.lookUp names {} [] = .ok ((s.commands.subset names).1, ["cd", "", "cd"]) ∧
    ∃ t, s.exec line = (.ok (), t) ∧
      t.output.events.toList = [
        .line ⟨"  unset <name>           Unsets a variable with the given name.", false⟩,
        .line ⟨"  man [commands...]      Displays information about all commands or a specific " ++
          "given list of commands.", false⟩,
        .line ⟨"  No manual entry for command(s): 'cd', '', 'cd'", true⟩] ∧
      t.vars.get? "?" = some (.int 1) := by
  intro s line names
  have htokens : Line.tokenize line =
      .ok ["man", "unset", "cd", "unset", "$DIR", "man", "cd"] := by decide +kernel
  have hcalls : s.Calls (Line.tokenize line) Builtin.commands[0] names :=
    ⟨List.getElem_mem _, _, htokens, map_substitute_eq_iff.mp (by decide)⟩
  obtain ⟨hsubset, hman⟩ := man_reports_subset
  obtain ⟨t, hexec, -, hevents, hcode, -⟩ :=
    hman s line _ _ names rfl find?_man hcalls (List.cons_ne_nil _ _)
  refine ⟨(hsubset _ s.commands names).1, t, hexec rfl, hevents.trans ?_, hcode.trans ?_⟩
  · rfl
  · rfl

end Session

end LineShell
