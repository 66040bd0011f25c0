import Mathlib.Data.List.Forall2
import LineShell.Proofs.Line.Reading

/-!
# Proofs/Line/Words — scanning what the grammar writes

    done ──blanks──▸ done ──word──▸ done, value ──blank──▸ done ++ [value] ──▸ ⋯

A run over the characters of a word builds the value of the word, whatever words are finished
before it (`run_word`), and a run over separated words finishes them (`run_separated`).  With the
partial derivations of `Proofs/Line/Reading` this makes `tokenize` and the grammar two accounts of
the same lines (`tokenize_iff_derives`).
-/

namespace LineShell.Line

namespace Scan

/-! ## Pieces of a word

A run over a piece of a word changes the word under construction and nothing else. -/

/-- `t` is `s` with more characters in its word. -/
structure Extends (s t : Scan) (more : List Char) : Prop where
  finished : t.finished = s.finished
  mode : t.mode = s.mode
  escaping : t.escaping = s.escaping
  text : t.text = s.text ++ more
  current : more ≠ [] ∨ s.current ≠ none → t.current ≠ none

theorem Extends.refl (s : Scan) : s.Extends s [] :=
  ⟨rfl, rfl, rfl, (List.append_nil _).symm, by simp⟩

theorem Extends.trans {s t u : Scan} {xs ys : List Char} (h : s.Extends t xs)
    (k : t.Extends u ys) : s.Extends u (xs ++ ys) where
  finished := k.finished.trans h.finished
  mode := k.mode.trans h.mode
  escaping := k.escaping.trans h.escaping
  text := by rw [k.text, h.text, List.append_assoc]
  current hc := by
    refine k.current ?_
    by_cases hy : ys = []
    · refine .inr (h.current ?_)
      simpa [hy] using hc
    · exact .inl hy

theorem extends_push (s : Scan) (c : Char) : s.Extends (s.push c) [c] :=
  ⟨rfl, rfl, rfl, text_push s c, by simp [push]⟩

theorem extends_pushOrdinary (s : Scan) (c : Char) : s.Extends (s.pushOrdinary c) [c] :=
  ⟨rfl, rfl, rfl, text_push s c, by simp [pushOrdinary, push]⟩

theorem current_eq_of_text {s : Scan} {vs : List Char} (hc : s.current ≠ none)
    (ht : s.text = vs) : s.current = some (.ofList vs) := by
  obtain ⟨word, hw⟩ := Option.ne_none_iff_exists'.mp hc
  rw [← ht]
  simp only [text, hw, Option.getD_some, String.ofList_toList]

/-- An escape adds its character. -/
theorem run_escape {s : Scan} (hm : s.mode ≠ .closed) (he : s.escaping = false) {c : Char}
    (hc : isEscapable c = true) (rest : List Char) :
    s.run ('\\' :: c :: rest) = (s.push c).run rest := by
  have hmove : Move { s with escaping := true } c (s.push c) := by
    have hpush : s.push c = { ({ s with escaping := true } : Scan).push c with
        escaping := false } := by
      rw [← he]
      rfl
    rw [hpush]
    exact .escaped hm rfl hc
  rw [run_cons_of_move (.backslash hm he), run_cons_of_move hmove]

/-- Escapes leave open whether a block may open. -/
theorem run_escapes {cs vs : List Char} (h : Escapes cs vs) : ∀ {s : Scan}, s.mode = .outside →
    s.escaping = false → ∃ t, s.run cs = .ok t ∧ s.Extends t vs ∧ t.afterBlank = s.afterBlank := by
  induction h with
  | nil => exact fun _ _ => ⟨_, rfl, .refl _, rfl⟩
  | @cons c cs vs hc _ ih =>
    intro s hm he
    obtain ⟨t, hrun, ht, ha⟩ := ih (s := s.push c) hm he
    refine ⟨t, ?_, (extends_push s c).trans ht, ha⟩
    rw [run_escape (by simp [hm]) he hc, hrun]

theorem run_bare {cs vs : List Char} (h : Bare cs vs) : ∀ {s : Scan}, s.mode = .outside →
    s.escaping = false → ∃ t, s.run cs = .ok t ∧ s.Extends t vs := by
  induction h with
  | nil => exact fun _ _ => ⟨_, rfl, .refl _⟩
  | @escape c cs vs hc _ ih =>
    intro s hm he
    obtain ⟨t, hrun, ht⟩ := ih (s := s.push c) hm he
    refine ⟨t, ?_, (extends_push s c).trans ht⟩
    rw [run_escape (by simp [hm]) he hc, hrun]
  | @ordinary c cs vs hc _ ih =>
    intro s hm he
    obtain ⟨t, hrun, ht⟩ := ih (s := s.pushOrdinary c) hm he
    refine ⟨t, ?_, (extends_pushOrdinary s c).trans ht⟩
    rw [run_cons_of_move (.ordinary hm he hc), hrun]

theorem run_block {q : Quote} {cs vs : List Char} (h : Block q cs vs) : ∀ {s : Scan},
    s.mode = .inside q → s.escaping = false → ∃ t, s.run cs = .ok t ∧ s.Extends t vs := by
  induction h with
  | nil => exact fun _ _ => ⟨_, rfl, .refl _⟩
  | @escape c cs vs hc _ ih =>
    intro s hm he
    obtain ⟨t, hrun, ht⟩ := ih (s := s.push c) hm he
    refine ⟨t, ?_, (extends_push s c).trans ht⟩
    rw [run_escape (by simp [hm]) he hc, hrun]
  | @plain c cs vs hc hq _ ih =>
    intro s hm he
    -- a quote keeps `afterBlank` and any other character clears it, so the next states differ
    cases hesc : isEscapable c with
    | true =>
      obtain ⟨p, rfl⟩ | rfl := isEscapable_eq_true_iff.mp hesc
      · obtain ⟨t, hrun, ht⟩ := ih (s := s.push p.char) hm he
        refine ⟨t, ?_, (extends_push s p.char).trans ht⟩
        rw [run_cons_of_move (.otherQuote hm he fun hpq => hq (hpq ▸ rfl)), hrun]
      · exact absurd rfl hc
    | false =>
      obtain ⟨t, hrun, ht⟩ := ih (s := s.pushOrdinary c) hm he
      refine ⟨t, ?_, (extends_pushOrdinary s c).trans ht⟩
      rw [run_cons_of_move (.plain hm he hesc), hrun]

/-! ## Whole words, after any others -/

/-- A state in which a word may start, after the given words. -/
def fresh (done : Array String) : Scan := { finished := done }

theorem start_eq_fresh : ({} : Scan) = fresh #[] := rfl

theorem separate_eq_fresh (s : Scan) : s.separate = fresh s.tokens := rfl

theorem atRest_fresh (done : Array String) : (fresh done).AtRest := ⟨rfl, by simp [fresh]⟩

/-- Blanks between words leave no trace. -/
theorem run_blanks {done : Array String} : ∀ {gap : List Char}, Blanks gap →
    (fresh done).run gap = .ok (fresh done)
  | [], _ => rfl
  | b :: gap, h => by
    rw [run_cons_of_move ((atRest_fresh done).move (h b List.mem_cons_self))]
    exact run_blanks fun c hc => h c (List.mem_cons_of_mem b hc)

/-- A block closes behind the escapes and the characters that its word stands for. -/
theorem run_quoted {q : Quote} {front vs block ws : List Char} (hf : Escapes front vs)
    (hb : Block q block ws) (done : Array String) : ∃ t,
    (fresh done).run (front ++ q.char :: block ++ [q.char]) = .ok t ∧ t.mode = .closed ∧
      t.escaping = false ∧ t.finished = done ∧ t.current = some (.ofList (vs ++ ws)) := by
  obtain ⟨s, hs, es, ha⟩ := run_escapes hf (s := fresh done) rfl rfl
  have hopen : Move s q.char (s.openQuote q) := .opened es.mode es.escaping ha
  obtain ⟨t, ht, et⟩ := run_block hb (s := s.openQuote q) rfl es.escaping
  have he : t.escaping = false := et.escaping.trans es.escaping
  have hclose : Move t q.char { t with mode := .closed } := .closed et.mode he
  refine ⟨{ t with mode := .closed }, ?_, rfl, he, et.finished.trans es.finished, ?_⟩
  · rw [List.append_assoc, run_append_of_ok hs, List.cons_append, run_cons_of_move hopen,
      run_append_of_ok ht, run_cons_of_move hclose]
    rfl
  · have hcurrent : t.current ≠ none := et.current (.inr (by simp [openQuote]))
    have htext : t.text = vs ++ ws := calc
      t.text = s.text ++ ws := et.text
      _ = vs ++ ws := by rw [es.text]; rfl
    exact current_eq_of_text hcurrent htext

/-- **A word is read as its value, and the line may end behind it.** -/
theorem run_word {cs vs : List Char} (h : Word cs vs) (done : Array String) : ∃ t,
    (fresh done).run cs = .ok t ∧ t.AtRest ∧ t.finished = done ∧
      t.current = some (.ofList vs) := by
  cases h with
  | bare hne hb =>
    obtain ⟨t, ht, et⟩ := run_bare hb (s := fresh done) rfl rfl
    have hvs : vs ≠ [] := by
      cases hb with
      | nil => exact absurd rfl hne
      | escape => simp
      | ordinary => simp
    refine ⟨t, ht, ⟨et.escaping, fun q hq => ?_⟩, et.finished,
      current_eq_of_text (et.current (.inl hvs)) et.text⟩
    exact absurd (et.mode.symm.trans hq) (by simp [fresh])
  | quoted q hf hb =>
    obtain ⟨t, ht, hm, he, hd, hc⟩ := run_quoted hf hb done
    exact ⟨t, ht, ⟨he, by simp [hm]⟩, hd, hc⟩

/-- …so a blank behind it adds the value to the finished words. -/
theorem run_word_blank {cs vs : List Char} (h : Word cs vs) (done : Array String) {b : Char}
    (hb : Text.isBlank b = true) :
    (fresh done).run (cs ++ [b]) = .ok (fresh (done.push (.ofList vs))) := by
  obtain ⟨t, ht, hr, hd, hc⟩ := run_word h done
  have htokens : t.tokens = done.push (.ofList vs) := by simp only [tokens, hc, hd]
  rw [run_append_of_ok ht, run_singleton, (hr.move hb).step, separate_eq_fresh, htokens]

/-- **Separated words are read as their values.** -/
theorem run_separated {cs : List Char} {vs : List (List Char)} (h : Separated cs vs) :
    ∀ done : Array String,
      (fresh done).run cs = .ok (fresh (done ++ (vs.map String.ofList).toArray)) := by
  induction h with
  | blanks hg =>
    intro done
    simpa using run_blanks hg
  | @cons gap word value rest b values hg hw hb _ ih =>
    intro done
    have hsplit : gap ++ word ++ b :: rest = gap ++ (word ++ [b] ++ rest) := by simp
    rw [hsplit, run_append_of_ok (run_blanks hg), run_append_of_ok (run_word_blank hw done hb), ih]
    simp

/-- …in particular by a scan that starts with them. -/
theorem run_start_separated {cs : List Char} {vs : List (List Char)} (h : Separated cs vs) :
    ({} : Scan).run cs = .ok (fresh (vs.map String.ofList).toArray) := by
  rw [start_eq_fresh, run_separated h, Array.empty_append]

end Scan

/-! ## The grammar of readable lines -/

/-- A line that the grammar derives is read as its words. -/
theorem tokenize_of_derives {line : String} {vs : List (List Char)} (h : Derives line.toList vs) :
    tokenize line = .ok (vs.map String.ofList) := by
  obtain hs | ⟨before, us, word, value, hs, hw, hline, rfl⟩ := h.separated_or_word
  · rw [tokenize_of_run (Scan.run_start_separated hs)]
    exact Scan.finish_eq_ok_iff.mpr ⟨Scan.atRest_fresh _, rfl⟩
  · obtain ⟨t, ht, hr, hd, hc⟩ := Scan.run_word hw (us.map String.ofList).toArray
    have hrun : ({} : Scan).run line.toList = .ok t := by
      rw [hline, Scan.run_append_of_ok (Scan.run_start_separated hs), ht]
    rw [tokenize_of_run hrun]
    refine Scan.finish_eq_ok_iff.mpr ⟨hr, ?_⟩
    rw [Scan.toList_tokens, hd, hc]
    simp

/-- …and the words of a line that is read derive it. -/
theorem derives_of_tokenize {line : String} {words : List String}
    (h : tokenize line = .ok words) : Derives line.toList (words.map String.toList) := by
  obtain ⟨s, hs, hr, rfl⟩ := exists_run_of_tokenize h
  obtain ⟨before, word, hreads, hline⟩ := Scan.exists_reads_of_run hs
  have hw : s.waiting = [] := by simp [Scan.waiting, hr.1]
  rw [hline, hw, List.append_nil]
  exact hreads.derives hr

theorem tokenize_eq_ok_iff {line : String} {words : List String} :
    tokenize line = .ok words ↔ Derives line.toList (words.map String.toList) := by
  refine ⟨derives_of_tokenize, fun h => ?_⟩
  have := tokenize_of_derives h
  rwa [List.map_map, show String.ofList ∘ String.toList = id from
    funext fun _ => String.ofList_toList, List.map_id] at this

/-- Every line has at most one reading. -/
theorem Derives.unique {cs : List Char} {vs ws : List (List Char)} (h : Derives cs vs)
    (k : Derives cs ws) : vs = ws := by
  have hv : tokenize (.ofList cs) = .ok (vs.map String.ofList) :=
    tokenize_of_derives (by rwa [String.toList_ofList])
  have hw : tokenize (.ofList cs) = .ok (ws.map String.ofList) :=
    tokenize_of_derives (by rwa [String.toList_ofList])
  have hmap : vs.map String.ofList = ws.map String.ofList := Except.ok.inj (hv.symm.trans hw)
  have := congrArg (List.map String.toList) hmap
  simpa [List.map_map, Function.comp_def] using this

/-- Only an empty pair of quotes is a word for the empty text. -/
theorem Word.eq_nil_iff {cs vs : List Char} (h : Word cs vs) :
    vs = [] ↔ ∃ q : Quote, cs = [q.char, q.char] := by
  cases h with
  | bare hne hb =>
    cases hb with
    | nil => exact absurd rfl hne
    | @escape c cs vs hc _ =>
      refine ⟨by simp, ?_⟩
      rintro ⟨q, hq⟩
      exact absurd (List.cons.inj hq).1.symm (Quote.char_ne_backslash q)
    | @ordinary c cs vs hc _ =>
      refine ⟨by simp, ?_⟩
      rintro ⟨q, hq⟩
      rw [(List.cons.inj hq).1, isOrdinary_quote] at hc
      cases hc
  | @quoted q front us block ws hf hb =>
    constructor
    · intro hv
      obtain ⟨rfl, rfl⟩ := List.append_eq_nil_iff.mp hv
      cases hf
      cases hb
      exact ⟨q, rfl⟩
    · rintro ⟨p, hp⟩
      have hlen := congrArg List.length hp
      simp only [List.length_append, List.length_cons, List.length_nil] at hlen
      obtain rfl : front = [] := List.eq_nil_of_length_eq_zero (by omega)
      obtain rfl : block = [] := List.eq_nil_of_length_eq_zero (by omega)
      cases hf
      cases hb
      rfl

/-- A line, and its words as they are written. -/
inductive Spaced : List Char → List (List Char) → Prop
  | blanks {gap : List Char} : Blanks gap → Spaced gap []
  | last {gap word : List Char} : Blanks gap → Spaced (gap ++ word) [word]
  | cons {gap word rest : List Char} {b : Char} {written : List (List Char)} : Blanks gap →
      Text.isBlank b = true → Spaced rest written →
      Spaced (gap ++ word ++ b :: rest) (word :: written)

/-- Each word that a derived line stands for is written in its place. -/
theorem Derives.exists_spaced {cs : List Char} {vs : List (List Char)} (h : Derives cs vs) :
    ∃ written, Spaced cs written ∧ List.Forall₂ Word written vs := by
  induction h with
  | blanks hg => exact ⟨[], .blanks hg, .nil⟩
  | @last gap word value hg hw => exact ⟨[word], .last hg, .cons hw .nil⟩
  | @cons gap word value rest b values hg hw hb _ ih =>
    obtain ⟨written, hs, hws⟩ := ih
    exact ⟨word :: written, .cons hg hb hs, .cons hw hws⟩

/-- Only an empty pair of quotes is read as an empty word. -/
theorem Word.eq_empty_iff {cs : List Char} {t : String} (h : Word cs t.toList) :
    t = "" ↔ cs = ['\'', '\''] ∨ cs = ['"', '"'] := by
  rw [← String.toList_eq_nil_iff, h.eq_nil_iff]
  constructor
  · rintro ⟨q, rfl⟩
    cases q with
    | double => exact .inr rfl
    | single => exact .inl rfl
  · rintro (rfl | rfl)
    · exact ⟨.single, rfl⟩
    · exact ⟨.double, rfl⟩

/-- **A line is read as the words that the grammar derives for it, and only then.**  No line has
two readings, and each word that is read is written in its place: it is empty exactly where an
empty pair of quotes is written. -/
theorem tokenize_iff_derives (line : String) :
    (∀ words : List String,
      tokenize line = .ok words ↔ Derives line.toList (words.map String.toList)) ∧
    (∀ vs ws, Derives line.toList vs → Derives line.toList ws → vs = ws) ∧
    ∀ words : List String, tokenize line = .ok words → ∃ written, Spaced line.toList written ∧
      List.Forall₂ (fun cs word => Word cs word.toList ∧
        (word = "" ↔ cs = ['\'', '\''] ∨ cs = ['"', '"'])) written words := by
  refine ⟨fun _ => tokenize_eq_ok_iff, fun _ _ => Derives.unique, fun words h => ?_⟩
  obtain ⟨written, hs, hws⟩ := (derives_of_tokenize h).exists_spaced
  refine ⟨written, hs, ?_⟩
  rw [List.forall₂_map_right_iff] at hws
  exact hws.imp fun _ _ hw => ⟨hw, hw.eq_empty_iff⟩

/-- A bare word, a block behind an escape, and an empty pair of quotes. -/
theorem derives_escape_block_empty :
    Derives "a \\'\"b c\" ''".toList [['a'], ['\'', 'b', ' ', 'c'], []] :=
  ((tokenize_iff_derives "a \\'\"b c\" ''").1 ["a", "'b c", ""]).mp (by rfl)

end LineShell.Line
