import LineShell.Proofs.Line.Joining
import LineShell.Proofs.Session.Answers

/-!
# Proofs/Session/Declared — a declared value comes back as one argument

    declare "n=v"   ──▸   n holds v
    "c" "$n"        ──▸   c runs with [v]

Quoting writes any text as one word (`Line.tokenize_append_quote`), a declaration is cut at its only
`=`, and a word that begins with `$` is replaced after the line has been cut into words, once.  So
nothing between the two lines looks at what a value is made of (`exec_declare_exec`).
-/

namespace LineShell

namespace Session

/-! ## Calling a command -/

/-- What a line makes of the end of the body that it calls: an exit code becomes `?`. -/
def concluded : Outcome Int → Outcome Unit
  | (.ok code, t) => (.ok (), t.set "?" (.int code))
  | (.error failure, t) => (.error failure, t)

/-- **A line that calls a command performs its body**, once and with the arguments of the call. -/
theorem exec_of_calls {s : Session} {line : String} {c : Command CommandBody}
    {args : List String} (ha : s.isActive = true) (hc : s.Calls (Line.tokenize line) c args)
    (hcount : c.info.Admits args.length) :
    s.exec line = concluded ((c.body args).perform nestingLimit (s.log line)) := by
  rcases hend : (c.body args).perform nestingLimit (s.log line) with ⟨failure | code, t⟩
  · exact execWith_eq_iff.mpr (.failed ha hc hcount hend)
  · exact execWith_eq_iff.mpr (.returned ha hc hcount hend)

/-- So do words that are known beforehand. -/
theorem execTokens_of_calls {s : Session} {line : String} {tokens : List String}
    {c : Command CommandBody} {args : List String} (ha : s.isActive = true)
    (hc : s.Calls (.ok tokens) c args) (hcount : c.info.Admits args.length) :
    s.execTokens line tokens = concluded ((c.body args).perform nestingLimit (s.log line)) := by
  rcases hend : (c.body args).perform nestingLimit (s.log line) with ⟨failure | code, t⟩
  · exact execTokensWith_eq_iff.mpr (.failed ha hc hcount hend)
  · exact execTokensWith_eq_iff.mpr (.returned ha hc hcount hend)

/-- A name and a text, both quoted, call the command of that name with what the text stands for. -/
theorem calls_quote_append_quote {s : Session} {c : Command CommandBody} {word arg : String}
    (hc : c ∈ s.commands.commands) (hname : c.name.toList.head? ≠ some '$')
    (hword : Stands s.vars word arg) :
    s.Calls (Line.tokenize (Line.quote c.name ++ " " ++ Line.quote word)) c [arg] where
  registered := hc
  words := ⟨[c.name, word], Line.tokenize_append_quote (Line.tokenize_quote c.name) word,
    .cons (.plain hname) (.cons hword .nil)⟩

/-! ## Declaring -/

/-- The value can be declared under the name and asked for again: neither holds `=`, and the name is
not `?`, which the next line overwrites, nor does it begin with `$`. -/
structure Declarable (name value : String) : Prop where
  notStatus : name ≠ "?"
  nameNoEquals : '=' ∉ name.toList
  nameNoDollar : name.toList.head? ≠ some '$'
  valueNoEquals : '=' ∉ value.toList

/-- The declaration of a value, which is one word. -/
def declaration (name value : String) : String := name ++ "=" ++ value

theorem Declarable.stands_declaration {name value : String} (h : Declarable name value)
    (t : Variables) : Stands t (declaration name value) (declaration name value) := by
  refine .plain ?_
  have hn := h.nameNoDollar
  rw [declaration, String.toList_append, String.toList_append]
  cases hcs : name.toList with
  | nil => simp
  | cons c cs => simpa [hcs] using hn

theorem Declarable.declare_eq {name value : String} (h : Declarable name value) :
    Builtin.declare [declaration name value] = .set name (.text value) (.done 0) := by
  have hpieces : Text.pieces '=' (declaration name value) = [name, value] :=
    Text.pieces_append_singleton h.nameNoEquals h.valueNoEquals
  simp only [Builtin.declare, hpieces]

theorem find?_declare : Builtin.registry.find? "declare" = some Builtin.commands[1] :=
  Registry.find?_eq_some_iff.mpr ⟨List.getElem_mem _, rfl⟩

/-- **A declaration sets its variable, succeeds, and does nothing else.** -/
theorem exec_declare {s : Session} {d : Command CommandBody} {name value : String}
    (ha : s.isActive = true) (hd : Builtin.registry.find? "declare" = some d)
    (hds : d ∈ s.commands.commands) (h : Declarable name value) :
    let line := "declare " ++ Line.quote (declaration name value)
    s.exec line = (.ok (), ((s.log line).set name (.text value)).set "?" (.int 0)) := by
  intro line
  obtain rfl := Option.some.inj (hd.symm.trans find?_declare)
  have hfirst : Line.tokenize "declare" = .ok ["declare"] := by decide
  have hspace : "declare " = "declare" ++ " " := by decide
  have htokens : Line.tokenize line = .ok ["declare", declaration name value] := by
    simp only [line, hspace]
    exact Line.tokenize_append_quote hfirst (declaration name value)
  have hcalls : s.Calls (Line.tokenize line) Builtin.commands[1] [declaration name value] :=
    ⟨hds, _, htokens, .cons (.plain (by decide)) (.cons (h.stands_declaration s.vars) .nil)⟩
  have hcount : Builtin.commands[1].info.Admits 1 := CommandInfo.accepts_iff.mp (by decide)
  have hbody : Builtin.commands[1].body [declaration name value] =
      .set name (.text value) (.done 0) := h.declare_eq
  rw [exec_of_calls ha hcalls hcount, hbody]
  rfl

/-- **A declared value comes back verbatim as one argument**, whatever it is made of. -/
theorem exec_declare_exec {s : Session} {d c : Command CommandBody} {name value : String}
    (ha : s.isActive = true) (hd : Builtin.registry.find? "declare" = some d)
    (hds : d ∈ s.commands.commands) (h : Declarable name value)
    (hc : c ∈ s.commands.commands) (hcount : c.info.Admits 1)
    (hname : c.name.toList.head? ≠ some '$') :
    let first := "declare " ++ Line.quote (name ++ "=" ++ value)
    let second := Line.quote c.name ++ " " ++ Line.quote ("$" ++ name)
    ∃ t, s.exec first = (.ok (), t) ∧
      t.vars.get? name = some (.text value) ∧ t.vars.get? "?" = some (.int 0) ∧
      (∀ other, other ≠ name → other ≠ "?" → t.vars.get? other = s.vars.get? other) ∧
      t.output = s.output ∧
      t.exec second = concluded ((c.body [value]).perform nestingLimit (t.log second)) := by
  intro first second
  let t := ((s.log first).set name (.text value)).set "?" (.int 0)
  have hget : ∀ other, t.vars.get? other = if other = "?" then some (.int 0)
      else if other = name then some (.text value) else s.vars.get? other := fun other => by
    simp only [t, set, Variables.get?_set]
    rfl
  have hvalue : t.vars.get? name = some (.text value) := by
    rw [hget, if_neg h.notStatus, if_pos rfl]
  refine ⟨t, exec_declare ha hd hds h, hvalue, by rw [hget, if_pos rfl],
    fun other hne hstatus => by rw [hget, if_neg hstatus, if_neg hne], rfl, ?_⟩
  exact exec_of_calls ha (calls_quote_append_quote hc hname (.value hvalue)) hcount

/-- The manual is asked for a value of a `$`, both quotes, a backslash and a line feed, declared
under a name with a blank. -/
theorem exec_declare_exec_man :
    let value := "$USER \"it's\\\n"
    let s := start "tsh" "guest" "box" Builtin.registry
    ∃ t, s.exec ("declare " ++ Line.quote ("A B" ++ "=" ++ value)) = (.ok (), t) ∧
      t.vars.get? "A B" = some (.text value) ∧
      t.exec (Line.quote "man" ++ " " ++ Line.quote ("$" ++ "A B")) =
        concluded ((Builtin.man [value]).perform nestingLimit
          (t.log (Line.quote "man" ++ " " ++ Line.quote ("$" ++ "A B")))) := by
  intro value s
  have hman : Builtin.commands[0] ∈ s.commands.commands := List.getElem_mem _
  have hdeclare : Builtin.commands[1] ∈ s.commands.commands := List.getElem_mem _
  have hvalue : Declarable "A B" value := ⟨by decide, by decide, by decide, by decide⟩
  have hadmits : Builtin.commands[0].info.Admits 1 := CommandInfo.accepts_iff.mp (by decide)
  obtain ⟨t, ht, hget, -, -, -, hexec⟩ :=
    exec_declare_exec (s := s) rfl find?_declare hdeclare hvalue hman hadmits (by decide)
  exact ⟨t, ht, hget, hexec⟩

end Session

end LineShell
