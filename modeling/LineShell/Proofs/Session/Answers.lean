import Mathlib.Data.List.Forall2
import LineShell.Proofs.Session.Bodies

/-!
# Proofs/Session/Answers — the answer of a session to a line

    s ──line──▸ result, t   (`Answer`)

`Answer` lists all the ways in which a line can end, each with the whole session that it leaves, so
that what a rule does not mention is unchanged.  A session gives that answer and no other to a line
and to words that are known beforehand (`execWith_eq_iff`, `execTokensWith_eq_iff`).  How bodies end
is a parameter of the rules: any way to perform them will do, and for bodies that run no line it is
`Action.Does` (`exec_answer`).
-/

namespace LineShell

/-! ## Words -/

/-- What a word of a line stands for, given the variables. -/
inductive Stands (t : Variables) : String → String → Prop
  /-- A word that does not begin with `$` stands for itself. -/
  | plain {word : String} : word.toList.head? ≠ some '$' → Stands t word word
  /-- `$` and a name stand for the text of the variable of that name… -/
  | value {name : String} {v : Value} : t.get? name = some v → Stands t ("$" ++ name) v.render
  /-- …and for nothing if it is not set. -/
  | unset {name : String} : t.get? name = none → Stands t ("$" ++ name) ""

namespace Session

theorem substitute_dollar (t : Variables) (name : String) :
    substitute t ("$" ++ name) = t.text name := by
  have hlist : ("$" ++ name).toList = '$' :: name.toList := by simp
  simp only [substitute, hlist, String.ofList_toList]

theorem substitute_of_head?_ne (t : Variables) {word : String}
    (h : word.toList.head? ≠ some '$') : substitute t word = word := by
  unfold substitute
  split
  · next name hlist => simp [hlist] at h
  · rfl

theorem stands_substitute (t : Variables) (word : String) : Stands t word (substitute t word) := by
  by_cases h : word.toList.head? = some '$'
  · obtain ⟨name, hname⟩ := List.head?_eq_some_iff.mp h
    have hword : word = "$" ++ .ofList name := by
      rw [← String.toList_inj]
      simp [hname]
    rw [hword, substitute_dollar, Variables.text]
    cases hv : t.get? (.ofList name) with
    | none => exact .unset hv
    | some v => exact .value hv
  · rw [substitute_of_head?_ne t h]
    exact .plain h

/-- A word stands for one text. -/
theorem substitute_eq_iff {t : Variables} {word text : String} :
    substitute t word = text ↔ Stands t word text := by
  refine ⟨fun h => h ▸ stands_substitute t word, fun h => ?_⟩
  cases h with
  | plain hw => exact substitute_of_head?_ne t hw
  | value hv => rw [substitute_dollar, Variables.text, hv]; rfl
  | unset hv => rw [substitute_dollar, Variables.text, hv]; rfl

theorem map_substitute_eq_iff {t : Variables} {tokens words : List String} :
    tokens.map (substitute t) = words ↔ List.Forall₂ (Stands t) tokens words := by
  simp only [← List.forall₂_eq_eq_eq, List.forall₂_map_left_iff, substitute_eq_iff]

/-- The words that were read stand for a name and arguments. -/
def Means (s : Session) (reading : Except Line.Fault (List String)) (name : String)
    (args : List String) : Prop :=
  ∃ tokens, reading = .ok tokens ∧ List.Forall₂ (Stands s.vars) tokens (name :: args)

/-- The words that were read call a registered command. -/
structure Calls (s : Session) (reading : Except Line.Fault (List String))
    (c : Command CommandBody) (args : List String) : Prop where
  registered : c ∈ s.commands.commands
  words : s.Means reading c.name args

/-! ## The rules -/

/-- The answer of a session to a line that reads so: the result, and the session after it.
`Ends a s result t` tells that the body `a`, started in `s`, ends with `result` and leaves `t`. -/
inductive Answer (Ends : Action → Session → Except Failure Int → Session → Prop) (s : Session)
    (line : String) (reading : Except Line.Fault (List String)) :
    Except Failure Unit → Session → Prop
  /-- A session that has ended refuses every line. -/
  | inactive : s.isActive = false → Answer Ends s line reading (.error .inactive) s
  /-- A line that cannot be read leaves a message. -/
  | unreadable {fault : Line.Fault} : s.isActive = true → reading = .error fault →
      Answer Ends s line reading (.ok ())
        (s.recordError (s.name ++ ": syntax error: " ++ fault.message))
  /-- A line without words leaves nothing. -/
  | blank : s.isActive = true → reading = .ok [] → Answer Ends s line reading (.ok ()) s
  /-- A name that is not registered leaves the line and a message. -/
  | unknown {name : String} {args : List String} : s.isActive = true →
      s.Means reading name args → name ∉ s.commands.names →
      Answer Ends s line reading (.ok ())
        ((s.log line).recordError (s.name ++ ": command not found: " ++ name))
  /-- A number of arguments out of bounds leaves the line, a message and the exit code 1. -/
  | wrongCount {c : Command CommandBody} {args : List String} : s.isActive = true →
      s.Calls reading c args → ¬ c.info.Admits args.length →
      Answer Ends s line reading (.ok ())
        (((s.log line).recordError
          (c.name ++ ": wrong number of arguments. Usage: " ++ c.info.usage)).set "?" (.int 1))
  /-- A body that returns leaves the line, what it did and its exit code. -/
  | returned {c : Command CommandBody} {args : List String} {code : Int} {t : Session} :
      s.isActive = true → s.Calls reading c args → c.info.Admits args.length →
      Ends (c.body args) (s.log line) (.ok code) t →
      Answer Ends s line reading (.ok ()) (t.set "?" (.int code))
  /-- A body that fails leaves the line and what it did. -/
  | failed {c : Command CommandBody} {args : List String} {failure : Failure} {t : Session} :
      s.isActive = true → s.Calls reading c args → c.info.Admits args.length →
      Ends (c.body args) (s.log line) (.error failure) t →
      Answer Ends s line reading (.error failure) t

/-! ## Running a line follows the rules -/

section Perform

variable {perform : Action → Session → Outcome Int} {s t : Session} {name line : String}
  {args tokens : List String} {c : Command CommandBody}

theorem dispatchWith_of_unknown (h : name ∉ s.commands.names) :
    s.dispatchWith perform name args = (.ok none, s) := by
  simp only [dispatchWith, Registry.find?_eq_none_iff.mpr h]

theorem dispatchWith_of_not_admits (hc : c ∈ s.commands.commands)
    (h : ¬ c.info.Admits args.length) :
    s.dispatchWith perform c.name args = (.ok (some 1), s.recordError c.info.wrongCount) := by
  have hno : ¬ c.info.accepts args.length = true := mt CommandInfo.accepts_iff.mp h
  simp only [dispatchWith, Registry.find?_eq_some_iff.mpr ⟨hc, rfl⟩, if_neg hno]

theorem dispatchWith_of_admits (hc : c ∈ s.commands.commands) (h : c.info.Admits args.length) :
    s.dispatchWith perform c.name args =
      ((perform (c.body args) s).1.map some, (perform (c.body args) s).2) := by
  simp only [dispatchWith, Registry.find?_eq_some_iff.mpr ⟨hc, rfl⟩,
    if_pos (CommandInfo.accepts_iff.mpr h)]
  rcases perform (c.body args) s with ⟨_ | _, t⟩ <;> rfl

/-- Some rule claims every line. -/
theorem exists_answer (perform : Action → Session → Outcome Int) (s : Session) (line : String)
    (reading : Except Line.Fault (List String)) :
    ∃ result t, Answer (fun a s result t => perform a s = (result, t)) s line reading result t := by
  cases ha : s.isActive with
  | false => exact ⟨_, _, .inactive ha⟩
  | true =>
    match reading with
    | .error fault => exact ⟨_, _, .unreadable ha rfl⟩
    | .ok [] => exact ⟨_, _, .blank ha rfl⟩
    | .ok (token :: tokens) =>
      have hmeans : s.Means (.ok (token :: tokens)) (substitute s.vars token)
          (tokens.map (substitute s.vars)) := ⟨_, rfl, map_substitute_eq_iff.mp rfl⟩
      by_cases hname : substitute s.vars token ∈ s.commands.names
      · obtain ⟨c, hc, hcname⟩ := List.mem_map.mp hname
        have hcalls : s.Calls (.ok (token :: tokens)) c (tokens.map (substitute s.vars)) :=
          ⟨hc, hcname ▸ hmeans⟩
        by_cases hcount : c.info.Admits (tokens.map (substitute s.vars)).length
        · rcases hend : perform (c.body (tokens.map (substitute s.vars))) (s.log line)
            with ⟨failure | code, t⟩
          · exact ⟨_, _, .failed ha hcalls hcount hend⟩
          · exact ⟨_, _, .returned ha hcalls hcount hend⟩
        · exact ⟨_, _, .wrongCount ha hcalls hcount⟩
      · exact ⟨_, _, .unknown ha hmeans hname⟩

theorem execTokensWith_of_words {words : List String} (ha : s.isActive = true)
    (hw : List.Forall₂ (Stands s.vars) tokens (name :: words)) :
    s.execTokensWith perform line tokens =
      match (s.log line).dispatchWith perform name words with
      | (.ok (some code), t) => (.ok (), t.set "?" (.int code))
      | (.ok none, t) => (.ok (), t.recordError s!"{t.name}: command not found: {name}")
      | (.error failure, t) => (.error failure, t) := by
  have hwords := map_substitute_eq_iff.mpr hw
  refine (if_pos ha).trans ?_
  generalize tokens.map (substitute s.vars) = substituted at hwords ⊢
  subst hwords
  rfl

theorem Answer.execTokensWith {result : Except Failure Unit}
    (h : Answer (fun a s result t => perform a s = (result, t)) s line (.ok tokens) result t) :
    s.execTokensWith perform line tokens = (result, t) := by
  cases h with
  | inactive ha => simp [Session.execTokensWith, ha]
  | unreadable ha hr => cases hr
  | blank ha hr =>
    cases hr
    simp [Session.execTokensWith, ha]
  | unknown ha hm hn =>
    obtain ⟨_, ⟨rfl⟩, hw⟩ := hm
    rw [execTokensWith_of_words ha hw, dispatchWith_of_unknown (s := s.log line) hn]
    rfl
  | wrongCount ha hc hcount =>
    obtain ⟨_, ⟨rfl⟩, hw⟩ := hc.words
    rw [execTokensWith_of_words ha hw,
      dispatchWith_of_not_admits (s := s.log line) hc.registered hcount]
    rfl
  | returned ha hc hcount hend =>
    obtain ⟨_, ⟨rfl⟩, hw⟩ := hc.words
    rw [execTokensWith_of_words ha hw,
      dispatchWith_of_admits (s := s.log line) hc.registered hcount, hend]
    rfl
  | failed ha hc hcount hend =>
    obtain ⟨_, ⟨rfl⟩, hw⟩ := hc.words
    rw [execTokensWith_of_words ha hw,
      dispatchWith_of_admits (s := s.log line) hc.registered hcount, hend]
    rfl

/-- A line that can be read is run as its words are. -/
theorem execWith_of_tokenize (h : Line.tokenize line = .ok tokens) :
    s.execWith perform line = s.execTokensWith perform line tokens := by
  cases ha : s.isActive with
  | false => simp [execWith, execTokensWith, ha]
  | true => simp only [execWith, if_pos ha, h]

theorem Answer.execWith {result : Except Failure Unit}
    (h : Answer (fun a s result t => perform a s = (result, t)) s line (Line.tokenize line)
      result t) : s.execWith perform line = (result, t) := by
  cases hr : Line.tokenize line with
  | ok tokens =>
    rw [hr] at h
    rw [execWith_of_tokenize hr, h.execTokensWith]
  | error fault =>
    rw [hr] at h
    cases h with
    | inactive ha => simp [Session.execWith, ha]
    | unreadable ha hf =>
      cases hf
      simp only [Session.execWith, if_pos ha, hr]
      rfl
    | blank ha hf => cases hf
    | unknown ha hm hn => obtain ⟨_, ⟨⟩, _⟩ := hm
    | wrongCount ha hc hcount => obtain ⟨_, ⟨⟩, _⟩ := hc.words
    | returned ha hc hcount hend => obtain ⟨_, ⟨⟩, _⟩ := hc.words
    | failed ha hc hcount hend => obtain ⟨_, ⟨⟩, _⟩ := hc.words

theorem execTokensWith_eq_iff {result : Except Failure Unit} :
    s.execTokensWith perform line tokens = (result, t) ↔
      Answer (fun a s result t => perform a s = (result, t)) s line (.ok tokens) result t := by
  refine ⟨fun h => ?_, Answer.execTokensWith⟩
  obtain ⟨result', t', ha⟩ := exists_answer perform s line (.ok tokens)
  obtain ⟨rfl, rfl⟩ := Prod.mk.inj (ha.execTokensWith.symm.trans h)
  exact ha

theorem execWith_eq_iff {result : Except Failure Unit} :
    s.execWith perform line = (result, t) ↔
      Answer (fun a s result t => perform a s = (result, t)) s line (Line.tokenize line)
        result t := by
  refine ⟨fun h => ?_, Answer.execWith⟩
  obtain ⟨result', t', ha⟩ := exists_answer perform s line (Line.tokenize line)
  obtain ⟨rfl, rfl⟩ := Prod.mk.inj (ha.execWith.symm.trans h)
  exact ha

end Perform

/-! ## Commands that run no line -/

section Frame

variable {Ends Ends' : Action → Session → Except Failure Int → Session → Prop} {s t : Session}
  {line : String} {reading : Except Line.Fault (List String)} {result : Except Failure Unit}

/-- The rules look at the ends of registered bodies only. -/
theorem Answer.imp (h : Answer Ends s line reading result t)
    (hends : ∀ c ∈ s.commands.commands, ∀ args result t,
      Ends (c.body args) (s.log line) result t → Ends' (c.body args) (s.log line) result t) :
    Answer Ends' s line reading result t := by
  cases h with
  | inactive ha => exact .inactive ha
  | unreadable ha hr => exact .unreadable ha hr
  | blank ha hr => exact .blank ha hr
  | unknown ha hm hn => exact .unknown ha hm hn
  | wrongCount ha hc hcount => exact .wrongCount ha hc hcount
  | returned ha hc hcount hend =>
    exact .returned ha hc hcount (hends _ hc.registered _ _ _ hend)
  | failed ha hc hcount hend => exact .failed ha hc hcount (hends _ hc.registered _ _ _ hend)

/-- The reading has at least one word. -/
def hasWord : Except Line.Fault (List String) → Bool
  | .ok (_ :: _) => true
  | _ => false

theorem Means.hasWord {name : String} {args : List String} (h : s.Means reading name args) :
    hasWord reading = true := by
  obtain ⟨tokens, rfl, hw⟩ := h
  cases hw
  rfl

/-- What a body keeps, a line keeps too: a line with a word enters the history once. -/
theorem Answer.keeps (h : Answer Ends s line reading result t)
    (hends : ∀ {a u result v}, Ends a u result v →
      v.history = u.history ∧ v.commands = u.commands) :
    t.history = (if s.isActive && hasWord reading then s.history.push line else s.history) ∧
      t.commands = s.commands := by
  cases h with
  | inactive ha => simp [ha]
  | unreadable ha hr => simp [hr, hasWord, recordError]
  | blank ha hr => simp [hr, hasWord]
  | unknown ha hm hn => simp [ha, hm.hasWord, recordError, log]
  | wrongCount ha hc hcount => simp [ha, hc.words.hasWord, recordError, log, set]
  | returned ha hc hcount hend =>
    obtain ⟨hh, hr⟩ := hends hend
    simp [ha, hc.words.hasWord, set, hh, hr, log]
  | failed ha hc hcount hend =>
    obtain ⟨hh, hr⟩ := hends hend
    simp [ha, hc.words.hasWord, hh, hr, log]

end Frame

end Session

end LineShell
