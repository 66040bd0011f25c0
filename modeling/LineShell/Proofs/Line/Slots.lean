import Mathlib.Data.List.DropRight
import LineShell.Proofs.Line.Words

/-!
# Proofs/Line/Slots — what the state of a scan always looks like

    tokens:   [ done , … , done | working ]      index = the number of words that are done

The list of words that a state shows has a working slot at its index, or ends right before it.
`Coherent` couples the slot to the mode and to the waiting backslash, and every move keeps it.
`rule` names the rule that claims a character, in the order in which the rules are tried; the flag
`afterBlank` counts the ordinary rule only (`afterBlank_eq_false_iff`).  A move touches the working
slot at most (`Move.grows`), so the words below the index are final, and none of them is empty
unless an empty pair of quotes is written in its place (`state_of_run`).
-/

namespace LineShell.Line

namespace Scan

/-! ## The rules in their order -/

/-- A rule for a character, in the order in which they are tried. -/
inductive Rule where
  /-- A blank outside blocks separates, and nothing else may follow a closed block. -/
  | blank
  /-- A backslash waits. -/
  | backslash
  /-- The character after a waiting backslash is taken as it is. -/
  | escaped
  /-- A quote opens or closes a block, or is the other quote of an open one. -/
  | quote
  /-- Every other character joins the word. -/
  | ordinary
  deriving DecidableEq, Repr

/-- The first rule that claims a character. -/
def rule (s : Scan) (c : Char) : Rule :=
  if s.mode = .closed ∨ s.mode = .outside ∧ s.escaping = false ∧ Text.isBlank c = true then .blank
  else if c = '\\' ∧ s.escaping = false then .backslash
  else if s.escaping then .escaped
  else if (Quote.ofChar? c).isSome then .quote
  else .ordinary

/-- The rules that claim the characters of a run, up to the first that is refused. -/
def rules (s : Scan) : List Char → List Rule
  | [] => []
  | c :: rest =>
      match s.step c with
      | .ok t => s.rule c :: t.rules rest
      | .error _ => []

/-- What a character leaves that a rule has claimed.  The quote rule has no case for a closed
block. -/
def Follows (s : Scan) (c : Char) (t : Scan) : Rule → Prop
  | .blank => Text.isBlank c = true ∧ t = s.separate
  | .backslash => c = '\\' ∧ t = { s with escaping := true }
  | .escaped => isEscapable c = true ∧ t = { s.push c with escaping := false }
  | .quote => ∃ q : Quote, c = q.char ∧
      (s.mode = .outside ∧ s.afterBlank = true ∧ t = s.openQuote q ∨
        s.mode = .inside q ∧ t = { s with mode := .closed } ∨
        ∃ p ≠ q, s.mode = .inside p ∧ t = s.push c)
  | .ordinary => isEscapable c = false ∧ t = s.pushOrdinary c

theorem rule_of_escaping {s : Scan} {c : Char} (hm : s.mode ≠ .closed) (he : s.escaping = true) :
    s.rule c = .escaped := by simp [rule, hm, he]

theorem rule_of_inside {s : Scan} {q : Quote} (hm : s.mode = .inside q) (he : s.escaping = false)
    (c : Char) : s.rule c =
      if c = '\\' then .backslash
      else if (Quote.ofChar? c).isSome then .quote else .ordinary := by simp [rule, hm, he]

theorem rule_of_outside {s : Scan} (hm : s.mode = .outside) (he : s.escaping = false) (c : Char) :
    s.rule c =
      if Text.isBlank c then .blank
      else if c = '\\' then .backslash
      else if (Quote.ofChar? c).isSome then .quote else .ordinary := by simp [rule, hm, he]

/-- **Every move follows the first rule that claims its character.** -/
theorem Move.follows {s t : Scan} {c : Char} (h : Move s c t) : Follows s c t (s.rule c) := by
  cases h with
  | escaped hm he hc =>
    rw [rule_of_escaping hm he]
    exact ⟨hc, rfl⟩
  | separated hm hb =>
    have hrule : s.rule c = .blank := by
      rcases hm with hm | ⟨hm, he⟩
      · simp [rule, hm]
      · simp [rule, hm, he, hb]
    rw [hrule]
    exact ⟨hb, rfl⟩
  | backslash hm he =>
    have hrule : s.rule '\\' = .backslash := by simp [rule, hm, he, Text.isBlank_backslash]
    rw [hrule]
    exact ⟨rfl, rfl⟩
  | @opened q hm he ha =>
    have hrule : s.rule q.char = .quote := by
      simp [rule_of_outside hm he, isBlank_quote, Quote.char_ne_backslash, Quote.ofChar?_char]
    rw [hrule]
    exact ⟨q, rfl, .inl ⟨hm, ha, rfl⟩⟩
  | @closed q hm he =>
    have hrule : s.rule q.char = .quote := by
      simp [rule_of_inside hm he, Quote.char_ne_backslash, Quote.ofChar?_char]
    rw [hrule]
    exact ⟨q, rfl, .inr (.inl ⟨hm, rfl⟩)⟩
  | @otherQuote p q hm he hq =>
    have hrule : s.rule p.char = .quote := by
      simp [rule_of_inside hm he, Quote.char_ne_backslash, Quote.ofChar?_char]
    rw [hrule]
    exact ⟨p, rfl, .inr (.inr ⟨q, hq.symm, hm, rfl⟩)⟩
  | ordinary hm he hc =>
    simp only [isOrdinary, Bool.and_eq_true, Bool.not_eq_true'] at hc
    obtain ⟨hq, hb⟩ := isEscapable_eq_false_iff.mp hc.2
    have hrule : s.rule c = .ordinary := by simp [rule_of_outside hm he, hc.1, hq, hb]
    rw [hrule]
    exact ⟨hc.2, rfl⟩
  | plain hm he hc =>
    obtain ⟨hq, hb⟩ := isEscapable_eq_false_iff.mp hc
    have hrule : s.rule c = .ordinary := by simp [rule_of_inside hm he, hq, hb]
    rw [hrule]
    exact ⟨hc, rfl⟩

/-! ## The flag, by the rules

Escapes and quotes leave `afterBlank` alone, so it is the last of the other rules that decides. -/

/-- What a rule makes of the flag. -/
def Rule.flag : Rule → Bool → Bool
  | blank, _ => true
  | ordinary, _ => false
  | backslash, flag | escaped, flag | quote, flag => flag

theorem Follows.afterBlank {s t : Scan} {c : Char} {r : Rule} (h : Follows s c t r) :
    t.afterBlank = r.flag s.afterBlank := by
  cases r with
  | blank | backslash | escaped | ordinary =>
    rw [h.2]
    rfl
  | quote =>
    obtain ⟨q, -, ⟨-, -, rfl⟩ | ⟨-, rfl⟩ | ⟨p, -, -, rfl⟩⟩ := h <;> rfl

theorem rules_concat {t u : Scan} {c : Char} (hm : Move t c u) : ∀ {read : List Char} {s : Scan},
    s.run read = .ok t → s.rules (read ++ [c]) = s.rules read ++ [t.rule c]
  | [], s, h => by
    obtain rfl : s = t := Except.ok.inj h
    simp only [List.nil_append, rules, hm.step]
  | d :: read, s, h => by
    obtain ⟨v, hv⟩ | ⟨fault, hf⟩ := move_or_refusal s d
    · rw [run_cons_of_move hv] at h
      simp only [List.cons_append, rules, hv.step]
      rw [rules_concat hm h]
    · simp only [run, hf.step] at h
      cases h

/-- **The flag is cleared exactly when the ordinary rule has claimed a character since the last
separating blank.** -/
theorem afterBlank_eq_false_iff {read : List Char} {s : Scan} (h : ({} : Scan).run read = .ok s) :
    s.afterBlank = false ↔
      Rule.ordinary ∈ (({} : Scan).rules read).rtakeWhile (· ≠ .blank) := by
  refine (run_induction (P := fun read s => ({} : Scan).run read = .ok s ∧ (s.afterBlank = false ↔
    Rule.ordinary ∈ (({} : Scan).rules read).rtakeWhile (· ≠ .blank))) ?_ read []
    ⟨rfl, by simp [rules]⟩ h).2
  rintro read s c t ⟨hrun, ih⟩ hm
  refine ⟨by rw [run_append_of_ok hrun, run_singleton, hm.step], ?_⟩
  rw [rules_concat hm hrun, hm.follows.afterBlank]
  cases s.rule c with
  | blank => simp [Rule.flag]
  | ordinary => simp [Rule.flag]
  | backslash | escaped | quote => simpa [Rule.flag] using ih

/-! ## The working slot -/

/-- The list of words shows the word under construction at the index. -/
theorem getElem?_tokens_index (s : Scan) : s.tokens[s.index]? = s.current := by
  rcases s with ⟨finished, current, _, _, _⟩
  cases current <;> simp [tokens, index]

theorem index_le_size_tokens (s : Scan) :
    s.index ≤ s.tokens.size ∧ s.tokens.size ≤ s.index + 1 := by
  rcases s with ⟨finished, current, _, _, _⟩
  cases current <;> simp [tokens, index]

/-- What holds of every state that a scan reaches. -/
structure Coherent (s : Scan) : Prop where
  /-- The list of words ends right before the working slot or with it. -/
  bounded : s.index ≤ s.tokens.size ∧ s.tokens.size ≤ s.index + 1
  /-- The working slot exists inside a block and right behind one. -/
  slot : s.mode ≠ .outside → s.index < s.tokens.size
  /-- No backslash waits right behind a block. -/
  unclosed : s.escaping = true → s.mode ≠ .closed
  /-- Outside blocks a working slot holds at least one character. -/
  nonempty : s.mode = .outside → s.tokens[s.index]? ≠ some ""

theorem coherent_start : ({} : Scan).Coherent where
  bounded := index_le_size_tokens _
  slot := by simp
  unclosed := by simp
  nonempty := by simp [getElem?_tokens_index]

/-- A state whose word holds a character is coherent unless a backslash waits. -/
theorem coherent_of_push {s : Scan} {word : String} {c : Char} (hc : s.current = some (word.push c))
    (he : s.escaping = false) : s.Coherent where
  bounded := index_le_size_tokens s
  slot _ := by
    have hget := s.getElem?_tokens_index
    rw [hc, Array.getElem?_eq_some_iff] at hget
    exact hget.1
  unclosed h := by simp [he] at h
  nonempty _ := by simp [getElem?_tokens_index, hc]

/-- **Every move keeps a state coherent.** -/
theorem Coherent.move {s t : Scan} {c : Char} (h : s.Coherent) (hm : Move s c t) :
    t.Coherent := by
  cases hm with
  | escaped => exact coherent_of_push rfl rfl
  | otherQuote _ he | ordinary _ he | plain _ he => exact coherent_of_push rfl he
  | separated =>
    exact ⟨index_le_size_tokens _, by simp [separate], by simp [separate], by
      simp [getElem?_tokens_index, separate]⟩
  | backslash hs _ => exact ⟨h.bounded, h.slot, fun _ => hs, h.nonempty⟩
  | opened _ he _ =>
    exact ⟨index_le_size_tokens _, fun _ => by simp [openQuote, tokens, index], by
      simp [openQuote], by simp [openQuote]⟩
  | closed hs he => exact ⟨h.bounded, fun _ => h.slot (by simp [hs]), by simp [he], by simp⟩

/-- So every state that a scan reaches is coherent. -/
theorem Coherent.of_run {read : List Char} {s : Scan} (h : ({} : Scan).run read = .ok s) :
    s.Coherent :=
  run_induction (P := fun _ s => s.Coherent) Coherent.move read [] coherent_start h

/-! ## What a move does to the words -/

/-- The words change at the working slot, and by one character at most. -/
inductive Grows (s : Scan) (c : Char) (t : Scan) : Prop
  /-- No word changes. -/
  | same : t.tokens = s.tokens → Grows s c t
  /-- The word in the working slot gets one character more. -/
  | longer : s.index < s.tokens.size → t.tokens = s.tokens.modify s.index (·.push c) → Grows s c t
  /-- A working slot is added; it is empty or holds the character. -/
  | added {word : String} : s.index = s.tokens.size → word = "" ∨ word = String.singleton c →
      t.tokens = s.tokens.push word → Grows s c t

/-- Changing the last place of an array changes what was pushed there. -/
theorem modify_size_push {α : Type} (a : Array α) (x : α) (f : α → α) :
    (a.push x).modify a.size f = a.push (f x) := by
  refine Array.ext (by simp) fun i _ hi => ?_
  have hle : i ≤ a.size := by simpa [Nat.lt_succ_iff] using hi
  rcases Nat.eq_or_lt_of_le hle with rfl | hlt
  · simp [Array.getElem_modify]
  · simp [Array.getElem_modify, Array.getElem_push_lt hlt, Nat.ne_of_gt hlt]

theorem grows_of_push {s t : Scan} {c : Char} (h : t.tokens = (s.push c).tokens) :
    Grows s c t := by
  rcases s with ⟨finished, current, mode, escaping, afterBlank⟩
  cases current with
  | none => exact .added rfl (.inr rfl) h
  | some word =>
    refine .longer (by simp [tokens, index]) (h.trans ?_)
    exact (modify_size_push finished word (·.push c)).symm

/-- **Every move leaves the words alone but for the working slot.** -/
theorem Move.grows {s t : Scan} {c : Char} (h : Move s c t) : Grows s c t := by
  cases h with
  | escaped | otherQuote | ordinary | plain => exact grows_of_push rfl
  | separated | backslash | closed => exact .same rfl
  | opened =>
    cases hc : s.current with
    | none =>
      exact .added (by simp [tokens, index, hc]) (.inl rfl) (by simp [tokens, openQuote, hc])
    | some word => exact .same (by simp [tokens, openQuote, hc])

/-! ## Words below the index -/

/-- The words below the index. -/
def done (s : Scan) : List String := s.tokens.toList.take s.index

theorem done_eq (s : Scan) : s.done = s.finished.toList := by
  rw [done, toList_tokens, index, ← Array.length_toList, List.take_left]

theorem done_prefix_tokens (s : Scan) : s.done <+: s.tokens.toList := List.take_prefix _ _

/-- A move may add the working slot to the words below the index… -/
theorem Move.done_prefix {s t : Scan} {c : Char} (h : Move s c t) : s.done <+: t.done := by
  rw [done_eq, done_eq]
  cases h with
  | separated =>
    rw [separate, toList_tokens]
    exact List.prefix_append _ _
  | escaped | backslash | opened | closed | otherQuote | ordinary | plain => exact List.prefix_rfl

/-- …and none of these ever changes again. -/
theorem done_prefix_of_run {cs : List Char} {s t : Scan} (h : s.run cs = .ok t) :
    s.done <+: t.done :=
  run_induction (P := fun _ t => s.done <+: t.done) (fun hp hm => hp.trans hm.done_prefix) cs []
    List.prefix_rfl h

theorem done_prefix_of_tokenize {read more : List Char} {s : Scan} {words : List String}
    (h : ({} : Scan).run read = .ok s) (ht : tokenize (.ofList (read ++ more)) = .ok words) :
    s.done <+: words := by
  obtain ⟨t, hrun, -, rfl⟩ := exists_run_of_tokenize ht
  rw [String.toList_ofList, run_append_of_ok h] at hrun
  exact (done_prefix_of_run hrun).trans t.done_prefix_tokens

/-- **Each word below the index is written in its place**, and only an empty pair of quotes is
written for an empty one. -/
theorem exists_spaced_done {read : List Char} {s : Scan} (h : ({} : Scan).run read = .ok s) :
    ∃ before rest written, read = before ++ rest ∧ Spaced before written ∧
      List.Forall₂ (fun cs word => Word cs word.toList ∧
        (word = "" ↔ cs = ['\'', '\''] ∨ cs = ['"', '"'])) written s.done := by
  obtain ⟨before, word, hreads, rfl⟩ := exists_reads_of_run h
  have hderives : Derives before s.values := by
    simpa using hreads.separated.append_derives (.blanks .nil)
  obtain ⟨written, hspaced, hwords⟩ := hderives.exists_spaced
  refine ⟨before, word ++ s.waiting, written, by rw [List.append_assoc], hspaced, ?_⟩
  rw [values, List.forall₂_map_right_iff] at hwords
  rw [done_eq]
  exact hwords.imp fun _ _ hw => ⟨hw, hw.eq_empty_iff⟩

/-- **What the state of a scan always looks like**, after any number of characters.  The state is
coherent; behind a closed block only a blank is taken, which leaves the block behind; the flag is
cleared exactly when the ordinary rule has claimed a character since the last separating blank.
Every further character follows the first rule that claims it, and changes the words at the working
slot only, by one character at most.  The words below the index stay as they are in every later
state and in the words of the line, and an empty one is written as an empty pair of quotes. -/
theorem state_of_run {read : List Char} {s : Scan} (h : ({} : Scan).run read = .ok s) :
    s.Coherent ∧
    (s.mode = .closed → ∀ c, s.rule c = .blank ∧
      s.step c = if Text.isBlank c then .ok s.separate else .error .missingBlank) ∧
    (s.afterBlank = false ↔
      Rule.ordinary ∈ (({} : Scan).rules read).rtakeWhile (· ≠ .blank)) ∧
    (∀ c t, s.step c = .ok t → Follows s c t (s.rule c) ∧ Grows s c t) ∧
    (∀ more t, s.run more = .ok t → s.done <+: t.done ∧ s.done <+: t.tokens.toList) ∧
    (∀ more words, tokenize (.ofList (read ++ more)) = .ok words → s.done <+: words) ∧
    ∃ before rest written, read = before ++ rest ∧ Spaced before written ∧
      List.Forall₂ (fun cs word => Word cs word.toList ∧
        (word = "" ↔ cs = ['\'', '\''] ∨ cs = ['"', '"'])) written s.done := by
  refine ⟨.of_run h, fun hm c => ⟨if_pos (.inl hm), ?_⟩, afterBlank_eq_false_iff h,
    fun c t hstep => ?_, fun more t hrun => ?_, fun more words => done_prefix_of_tokenize h,
    exists_spaced_done h⟩
  · cases hb : Text.isBlank c with
    | true => exact (Move.separated (.inl hm) hb).step
    | false => exact (Refusal.missingBlank hm hb).step
  · have hmove := step_eq_ok_iff.mp hstep
    exact ⟨hmove.follows, hmove.grows⟩
  · have hdone := done_prefix_of_run hrun
    exact ⟨hdone, hdone.trans t.done_prefix_tokens⟩

/-- Behind an empty pair of quotes, in the middle of a word with an escape. -/
theorem state_of_run_empty_pair :
    let read := "''\ta\\\"".toList
    let s : Scan := { finished := #[""], current := some "a\"", afterBlank := false }
    ({} : Scan).run read = .ok s ∧ s.Coherent ∧
      Rule.ordinary ∈ (({} : Scan).rules read).rtakeWhile (· ≠ .blank) ∧
      s.done <+: ["", "a\"b", "c"] := by
  intro read s
  have hrun : ({} : Scan).run read = .ok s := by decide
  obtain ⟨hs, -, hflag, -, -, hfinal, -⟩ := state_of_run hrun
  exact ⟨hrun, hs, hflag.mp rfl, hfinal "b c".toList _ (by decide)⟩

end Scan

end LineShell.Line
