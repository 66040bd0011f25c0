import LineShell.Line.Quoting
import LineShell.Proofs.Line.Words

/-!
# Proofs/Line/Joining — lines put together at blanks

    first ++ blank ++ rest  ──tokenize──▸  words of first ++ words of rest

A blank behind a complete line leaves the state of a fresh scan with the words of that line
finished, and finished words never bear on how a scan goes on (`run_after`).  So reading is a
homomorphism for joining at a blank (`tokenize_append_blank`), refusals included, and a list of
texts comes back from any line in which each is written in a style that can write it
(`tokenize_join`).
-/

namespace LineShell.Line

namespace Scan

/-! ## Finished words do not matter -/

/-- The same state behind further finished words. -/
def after (done : Array String) (s : Scan) : Scan := { s with finished := done ++ s.finished }

theorem fresh_eq_after (done : Array String) : fresh done = after done {} := by
  simp only [fresh, after, Array.append_empty]

theorem tokens_after (done : Array String) (s : Scan) :
    (s.after done).tokens = done ++ s.tokens := by
  rcases s with ⟨finished, current, mode, escaping, afterBlank⟩
  cases current with
  | none => rfl
  | some word => simp only [tokens, after, Array.append_push]

theorem Move.after {s t : Scan} {c : Char} (h : Move s c t) (done : Array String) :
    Move (s.after done) c (t.after done) := by
  cases h with
  | escaped hm he hc => exact .escaped hm he hc
  | separated hm hb =>
    have hsep : s.separate.after done = (s.after done).separate := by
      simp only [separate, tokens_after]
      rfl
    rw [hsep]
    exact .separated hm hb
  | backslash hm he => exact .backslash hm he
  | opened hm he ha => exact .opened hm he ha
  | closed hm he => exact .closed hm he
  | otherQuote hm he hq => exact .otherQuote hm he hq
  | ordinary hm he hc => exact .ordinary hm he hc
  | plain hm he hc => exact .plain hm he hc

theorem Refusal.after {s : Scan} {c : Char} {fault : Fault} (h : Refusal s c fault)
    (done : Array String) : Refusal (s.after done) c fault := by
  cases h with
  | illegalEscape hm he hc => exact .illegalEscape hm he hc
  | missingBlank hm hc => exact .missingBlank hm hc
  | prematureQuote hm he ha => exact .prematureQuote hm he ha

/-- **A run goes the same way behind further finished words.** -/
theorem run_after (done : Array String) : ∀ (cs : List Char) (s : Scan),
    (s.after done).run cs = (s.run cs).map (after done)
  | [], _ => rfl
  | c :: cs, s => by
    obtain ⟨t, ht⟩ | ⟨fault, hf⟩ := move_or_refusal s c
    · rw [run_cons_of_move (ht.after done), run_cons_of_move ht, run_after done cs t]
    · simp only [run, hf.step, (hf.after done).step]
      rfl

theorem finish_after (done : Array String) (s : Scan) :
    (s.after done).finish = s.finish.map (done.toList ++ ·) := by
  have ht : (s.after done).tokens.toList = done.toList ++ s.tokens.toList := by
    rw [tokens_after, Array.toList_append]
  cases he : s.escaping with
  | true => simp [finish, after, he, Except.map]
  | false =>
    cases hm : s.mode with
    | inside q => simp [finish, after, he, hm, Except.map]
    | outside => simpa [finish, after, he, hm, Except.map] using ht
    | closed => simpa [finish, after, he, hm, Except.map] using ht

end Scan

/-! ## Joining at blanks -/

/-- **What stands behind a complete line and a blank is read on its own.** -/
theorem tokenize_push_append {first : String} {words : List String}
    (h : tokenize first = .ok words) {b : Char} (hb : Text.isBlank b = true) (rest : String) :
    tokenize (first.push b ++ rest) = (tokenize rest).map (words ++ ·) := by
  obtain ⟨s, hs, hr, rfl⟩ := exists_run_of_tokenize h
  have hblank : ({} : Scan).run (first.push b).toList = .ok (Scan.after s.tokens {}) := by
    rw [String.toList_push, Scan.run_append_of_ok hs, Scan.run_singleton, (hr.move hb).step,
      Scan.separate_eq_fresh, Scan.fresh_eq_after]
  rw [tokenize_eq_bind, String.toList_append, Scan.run_append_of_ok hblank, Scan.run_after,
    tokenize_eq_bind]
  cases ({} : Scan).run rest.toList with
  | ok t => exact Scan.finish_after s.tokens t
  | error fault => rfl

/-- Blanks in front of a line change nothing… -/
theorem tokenize_blanks_append {gap : String} (h : Blanks gap.toList) (line : String) :
    tokenize (gap ++ line) = tokenize line := by
  have hgap : ({} : Scan).run gap.toList = .ok {} := Scan.run_blanks h
  rw [tokenize_eq_bind, tokenize_eq_bind, String.toList_append, Scan.run_append_of_ok hgap]

/-- …and any number of blanks, but at least one, serves to join. -/
theorem tokenize_append_gap {first : String} {words : List String}
    (h : tokenize first = .ok words) {gap : String} (hne : gap ≠ "") (hg : Blanks gap.toList)
    (rest : String) : tokenize (first ++ gap ++ rest) = (tokenize rest).map (words ++ ·) := by
  obtain ⟨b, more, hmore⟩ := List.exists_cons_of_ne_nil (mt String.toList_eq_nil_iff.mp hne)
  rw [hmore] at hg
  have hsplit : first ++ gap ++ rest = first.push b ++ (.ofList more ++ rest) := by
    rw [← String.toList_inj]
    simp [hmore]
  have hmore : Blanks (String.ofList more).toList := by
    rw [String.toList_ofList]
    exact fun c hc => hg c (List.mem_cons_of_mem b hc)
  rw [hsplit, tokenize_push_append h (hg b List.mem_cons_self), tokenize_blanks_append hmore]

/-- **Reading is a homomorphism for joining at a blank.**  Behind a complete line and a blank the
rest is read or refused as it is alone; so blanks in front of a line never matter, blanks behind a
complete line add nothing, and any gap serves as well as any other. -/
theorem tokenize_append_blank {first : String} {words : List String}
    (h : tokenize first = .ok words) {b : Char} (hb : Text.isBlank b = true) (rest : String) :
    tokenize (first ++ String.singleton b ++ rest) = (tokenize rest).map (words ++ ·) ∧
    (∀ gap : String, Blanks gap.toList → tokenize (gap ++ rest) = tokenize rest) ∧
    (∀ gap : String, Blanks gap.toList → tokenize (first ++ gap) = .ok words) ∧
    ∀ gap : String, gap ≠ "" → Blanks gap.toList →
      tokenize (first ++ gap ++ rest) = tokenize (first ++ String.singleton b ++ rest) := by
  have hjoin : tokenize (first ++ String.singleton b ++ rest) =
      (tokenize rest).map (words ++ ·) := by
    rw [← String.push_eq_append]
    exact tokenize_push_append h hb rest
  refine ⟨hjoin, fun gap hg => tokenize_blanks_append hg rest, fun gap hg => ?_,
    fun gap hne hg => ?_⟩
  · by_cases hne : gap = ""
    · rw [hne, String.append_empty, h]
    · have hempty : tokenize "" = .ok [] := rfl
      have := tokenize_append_gap h hne hg ""
      rw [String.append_empty, hempty] at this
      simpa only [Except.map, List.append_nil] using this
  · rw [hjoin]
    exact tokenize_append_gap h hne hg rest

/-- A complete line of an escape and an empty pair of quotes, in front of a rest that is
refused. -/
theorem tokenize_append_blank_refused :
    tokenize "\\' ''" = .ok ["'", ""] ∧ Text.isBlank '\t' = true ∧
      tokenize ("\\' ''" ++ String.singleton '\t' ++ "a\\b") = .error (.illegalEscape 'b') ∧
      tokenize ("\\' ''" ++ " \n") = .ok ["'", ""] := by
  have hfirst : tokenize "\\' ''" = .ok ["'", ""] := rfl
  have hblank : Text.isBlank '\t' = true := by decide
  obtain ⟨hjoin, -, htrail, -⟩ := tokenize_append_blank hfirst hblank "a\\b"
  exact ⟨hfirst, hblank, hjoin.trans rfl, htrail " \n" (by decide)⟩

/-! ## Lines written from texts -/

/-- A text, with a style that can write it. -/
structure Entry where
  text : String
  style : Style
  applies : style.Applies text.toList

/-- The word that the entry writes. -/
def Entry.written (e : Entry) : String := .ofList (e.style.write e.text.toList)

/-- What may stand between two words: blanks, and at least one. -/
structure Gap where
  blanks : String
  ne_empty : blanks ≠ ""
  blank : Blanks blanks.toList

/-- The words of the entries, with the gap of that number behind each but the last. -/
def join (gaps : Nat → Gap) : List Entry → String
  | [] => ""
  | [e] => e.written
  | e :: f :: rest => e.written ++ (gaps 0).blanks ++ join (fun n => gaps (n + 1)) (f :: rest)

theorem tokenize_written (e : Entry) : tokenize e.written = .ok [e.text] := by
  refine tokenize_eq_ok_iff.mpr ?_
  rw [Entry.written, String.toList_ofList]
  exact .last .nil (word_write e.applies)

/-- Every text fits into a block. -/
def Entry.quoted (s : String) : Entry := ⟨s, .block .double, trivial⟩

theorem tokenize_quote (s : String) : tokenize (quote s) = .ok [s] :=
  tokenize_written (.quoted s)

/-- A quoted text behind a complete line adds one word. -/
theorem tokenize_append_quote {first : String} {words : List String}
    (h : tokenize first = .ok words) (s : String) :
    tokenize (first ++ " " ++ quote s) = .ok (words ++ [s]) := by
  rw [tokenize_append_gap h (by decide) (by decide), tokenize_quote]
  rfl

/-- **A line written from texts is read as these texts**, whichever style writes each of them and
whatever blanks stand between them; and every list of texts can be written. -/
theorem tokenize_join :
    (∀ (gaps : Nat → Gap) (entries : List Entry),
      tokenize (join gaps entries) = .ok (entries.map Entry.text)) ∧
    ∀ words : List String, ∃ entries : List Entry, entries.map Entry.text = words := by
  refine ⟨fun gaps entries => ?_, fun words => ⟨words.map Entry.quoted, ?_⟩⟩
  · induction entries generalizing gaps with
    | nil => rfl
    | cons e rest ih =>
      cases rest with
      | nil => exact tokenize_written e
      | cons f rest =>
        rw [join, tokenize_append_gap (tokenize_written e) (gaps 0).ne_empty (gaps 0).blank, ih]
        rfl
  · rw [List.map_map]
    exact List.map_id words

/-- A bare word, an empty block and a block with escapes, between tabs. -/
theorem tokenize_join_styles :
    tokenize "it\\'s\t''\t\"a \\\"b\\\\\"" = .ok ["it's", "", "a \"b\\"] := by
  have hline : "it\\'s\t''\t\"a \\\"b\\\\\"" = join (fun _ => ⟨"\t", by decide, by decide⟩)
      [⟨"it's", .bare, by decide⟩, ⟨"", .block .single, trivial⟩,
        ⟨"a \"b\\", .block .double, trivial⟩] := by decide +kernel
  rw [hline]
  exact tokenize_join.1 _ _

end LineShell.Line
