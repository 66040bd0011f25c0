import LineShell.Proofs.Cli.Tokens
import LineShell.Proofs.Line.Tracing
import LineShell.Proofs.Text.Kept
import LineShell.Proofs.Text.Literals

/-!
# Proofs/Cli/Trace — what the printed steps of a scan show

    label, state  ──────────────▸  as they are
    words  ──jsonList──▸ json  ──▸  what the console keeps of it

A line of the trace is a label, the flags and the index of a state, and its words as JSON, and the
console makes something else of the last part only (`toList_traceLine`).  So a step shows its words
if and only if every bracket that stands behind a backslash in their JSON begins a tag there; any
other step shows a text that cannot be read (`respond_trace`).
-/

namespace LineShell.Cli

/-! ## The head of a line -/

/-- A label holds inert characters, and maybe the printable character that it is about. -/
theorem mem_traceLabel {c : Option Char} {d : Char} (h : d ∈ (traceLabel c).toList) :
    Text.IsInert d ∨ c = some d ∧ Text.isPrintable d = true := by
  cases c with
  | none =>
    have hstart : ∀ d ∈ (traceLabel none).toList, Text.IsInert d := by decide
    exact .inl (hstart d h)
  | some c =>
    have hmarks : ∀ quote ∈ ['"', '\''], Text.IsInert quote := by decide
    obtain ⟨quote, hquote, htext⟩ := Text.toList_literal c
    rw [traceLabel, htext] at h
    simp only [List.cons_append, List.mem_cons, List.mem_append, List.not_mem_nil, or_false] at h
    obtain rfl | h | rfl := h
    · exact .inl (hmarks d (by simpa using hquote))
    · obtain h | ⟨rfl, h⟩ := Text.inert_or_self hquote h
      · exact .inl h
      · exact .inr ⟨rfl, h⟩
    · exact .inl (hmarks d (by simpa using hquote))

theorem getLast?_traceLabel (c : Option Char) : (traceLabel c).toList.getLast? ≠ some '\\' := by
  cases c with
  | none => decide
  | some c =>
    obtain ⟨quote, hquote, htext⟩ := Text.toList_literal c
    rw [traceLabel, htext, List.getLast?_concat]
    obtain rfl | rfl := hquote <;> decide

/-- What a line shows in front of the words: the label in its column, the flags and the index. -/
def traceHead (c : Option Char) (s : Line.Scan) : String :=
  Text.padLeft 8 (traceLabel c) ++ " " ++ traceState s

theorem toList_padLeft (width : Nat) (s : String) :
    (Text.padLeft width s).toList = List.replicate (width - s.length) ' ' ++ s.toList := by
  rw [Text.padLeft, String.toList_append, String.toList_ofList]

theorem toList_traceState (s : Line.Scan) : (traceState s).toList =
    (Text.padRight 11 (modeName s.mode)).toList ++ (" escape=".toList ++
      ((flag s.escaping).toList ++ (" ws=".toList ++ ((flag s.afterBlank).toList ++
        (" index=".toList ++ (Nat.toDigits 10 s.index ++ [' '])))))) := by
  simp [traceState, toString]

theorem isInert_modeName (m : Line.Mode) :
    ∀ d ∈ (Text.padRight 11 (modeName m)).toList, Text.IsInert d := by
  cases m with
  | outside => decide
  | inside q => cases q <;> decide
  | closed => decide

theorem isInert_flag (b : Bool) : ∀ d ∈ (flag b).toList, Text.IsInert d := by
  cases b <;> decide

theorem isInert_digits (n : Nat) : ∀ d ∈ Nat.toDigits 10 n, Text.IsInert d := by
  intro d hd
  have hdigit := Nat.isDigit_of_mem_toDigits (by decide) (by decide) hd
  simp only [Char.isDigit, Bool.and_eq_true, decide_eq_true_eq, ge_iff_le,
    UInt32.le_iff_toNat_le] at hdigit
  obtain ⟨hlow, hhigh⟩ : 0x30 ≤ d.toNat ∧ d.toNat ≤ 0x39 := hdigit
  refine ⟨⟨by omega, by omega⟩, ?_⟩
  rintro rfl
  exact absurd hhigh (by decide)

theorem isInert_traceState (s : Line.Scan) : ∀ d ∈ (traceState s).toList, Text.IsInert d := by
  simp only [toList_traceState, List.forall_mem_append]
  exact ⟨isInert_modeName s.mode, by decide, isInert_flag s.escaping, by decide,
    isInert_flag s.afterBlank, by decide, isInert_digits s.index, by decide⟩

theorem getLast?_traceState (s : Line.Scan) : (traceState s).toList.getLast? = some ' ' := by
  simp only [toList_traceState, ← List.append_assoc]
  exact List.getLast?_concat

theorem toList_traceHead (c : Option Char) (s : Line.Scan) :
    (traceHead c s).toList =
      (Text.padLeft 8 (traceLabel c)).toList ++ ' ' :: (traceState s).toList := by
  simp [traceHead]

theorem isPrintable_traceHead (c : Option Char) (s : Line.Scan) :
    ∀ d ∈ (traceHead c s).toList, Text.isPrintable d = true := by
  have hspace : Text.isPrintable ' ' = true := by decide
  intro d hd
  rw [toList_traceHead, toList_padLeft] at hd
  simp only [List.mem_append, List.mem_cons] at hd
  obtain (hd | hd) | rfl | hd := hd
  · rw [List.eq_of_mem_replicate hd]
    exact hspace
  · obtain hd | ⟨-, hd⟩ := mem_traceLabel hd
    · exact Text.isPrintable_of_isVisible hd.1
    · exact hd
  · exact hspace
  · exact Text.isPrintable_of_isVisible (isInert_traceState s d hd).1

/-! ## The line

A label holds a bracket only if it is about that bracket, which begins no tag then: a quote follows
it.  That label is one text, and the facts below are seen on it. -/

theorem eq_of_bracket_mem {c : Option Char} (h : '[' ∈ (traceLabel c).toList) : c = some '[' := by
  obtain hinert | ⟨hc, -⟩ := mem_traceLabel h
  · exact absurd rfl hinert.2
  · exact hc

theorem eq_of_bracket_mem_padded {c : Option Char}
    (h : '[' ∈ (Text.padLeft 8 (traceLabel c)).toList) : c = some '[' := by
  rw [toList_padLeft, List.mem_append] at h
  obtain h | h := h
  · exact absurd (List.eq_of_mem_replicate h) (by decide)
  · exact eq_of_bracket_mem h

theorem getLast?_padded (c : Option Char) :
    (Text.padLeft 8 (traceLabel c)).toList.getLast? ≠ some '\\' := by
  rw [toList_padLeft, List.getLast?_append]
  cases hlast : (traceLabel c).toList.getLast? with
  | none =>
    rw [Option.none_or, List.getLast?_replicate]
    split <;> decide
  | some d => exact fun h => getLast?_traceLabel c (hlast.trans h)

/-- Escaping leaves a label alone… -/
theorem escaped_traceLabel (c : Option Char) : escaped (traceLabel c) = traceLabel c := by
  by_cases hc : c = some '['
  · subst hc
    decide +kernel
  · rw [escaped, Text.escapeMarkup_of_notMem (mt eq_of_bracket_mem hc) (getLast?_traceLabel c),
      String.ofList_toList]

/-- …also in its column… -/
theorem escapeMarkup_padded (c : Option Char) :
    Text.escapeMarkup (Text.padLeft 8 (traceLabel c)).toList =
      (Text.padLeft 8 (traceLabel c)).toList := by
  by_cases hc : c = some '['
  · subst hc
    decide +kernel
  · exact Text.escapeMarkup_of_notMem (mt eq_of_bracket_mem_padded hc) (getLast?_padded c)

/-- …and all of it is kept. -/
theorem kept_padded (c : Option Char) : Text.kept (Text.padLeft 8 (traceLabel c)).toList =
    (Text.padLeft 8 (traceLabel c)).toList := by
  by_cases hc : c = some '['
  · subst hc
    decide +kernel
  · have hkept : Text.kept ((Text.padLeft 8 (traceLabel c)).toList ++ []) = _ ++ Text.kept [] :=
      Text.kept_append (mt eq_of_bracket_mem_padded hc) fun _ => by decide
    rwa [List.append_nil, Text.kept, List.append_nil] at hkept

theorem bracket_notMem_state (s : Line.Scan) : '[' ∉ ' ' :: (traceState s).toList := by
  intro h
  obtain h | h := List.mem_cons.mp h
  · cases h
  · exact (isInert_traceState s _ h).2 rfl

theorem getLast?_state (s : Line.Scan) : (' ' :: (traceState s).toList).getLast? ≠ some '\\' := by
  rw [List.getLast?_cons, getLast?_traceState]
  decide

theorem getLast?_writeList (ss : List String) : (Text.writeList ss).getLast? ≠ some '\\' := by
  rw [Text.writeList, List.getLast?_concat]
  decide

/-- The markup of a line, cut where the label ends. -/
theorem toList_traceMarkup (c : Option Char) (s : Line.Scan) : (traceMarkup c s).toList =
    "[dim]".toList ++ (Text.markupParts (Text.padLeft 8 (traceLabel c)).toList).flatMap
      Text.MarkupPart.escape ++ "[/dim]".toList ++
      (Text.markupParts (' ' :: (traceState s).toList ++
        Text.writeList s.tokens.toList)).flatMap Text.MarkupPart.escape := by
  have hopen : ¬ Text.Closes (Text.writeList s.tokens.toList) := by
    simp [Text.writeList, Text.closes_cons]
  rw [← Text.escapeMarkup_eq (getLast?_padded c), escapeMarkup_padded,
    Text.escape_parts_append (bracket_notMem_state s) (getLast?_state s) hopen,
    ← Text.escapeMarkup_eq (getLast?_writeList _), traceMarkup, escaped_traceLabel]
  simp [escaped, Text.jsonList]

theorem isPrintable_shown (c : Option Char) (s : Line.Scan) :
    ∀ d ∈ (traceHead c s).toList ++ Text.kept (Text.writeList s.tokens.toList),
      Text.isPrintable d = true := by
  intro d hd
  obtain hd | hd := List.mem_append.mp hd
  · exact isPrintable_traceHead c s d hd
  · exact Text.isPrintable_of_isVisible
      (Text.isVisible_writeList _ d ((Text.kept_sublist _).subset hd))

/-- **A line shows its head as it is, and what the console keeps of the words as JSON.** -/
theorem toList_traceLine (c : Option Char) (s : Line.Scan) : (traceLine c s).toList =
    (traceHead c s).toList ++ Text.kept (Text.writeList s.tokens.toList) := by
  -- a blank ends the state, so no backslash of it meets the bracket that opens the words
  have hkept : Text.kept (' ' :: (traceState s).toList ++ Text.writeList s.tokens.toList) =
      ' ' :: (traceState s).toList ++ Text.kept (Text.writeList s.tokens.toList) :=
    Text.kept_append (bracket_notMem_state s) fun h => absurd h (getLast?_state s)
  have hsteady := Text.steady_of_isPrintable (isPrintable_shown c s)
  rw [traceLine, String.toList_ofList, Text.showMarkup, toList_traceMarkup,
    Text.render_dimmed (getLast?_padded c), kept_padded, hkept, ← List.append_assoc,
    ← toList_traceHead, hsteady.showPlain]

/-- A line shows its words, or what it shows in their place cannot be read. -/
theorem exists_words (c : Option Char) (s : Line.Scan) : ∃ words : String,
    traceLine c s = traceHead c s ++ words ∧
      (Text.BracketsTagged (Text.writeList s.tokens.toList) ∧
          words = Text.jsonList s.tokens.toList ∧
          Text.readList? words.toList = some s.tokens.toList ∨
        ¬ Text.BracketsTagged (Text.writeList s.tokens.toList) ∧
          words ≠ Text.jsonList s.tokens.toList ∧ Text.readList? words.toList = none) := by
  refine ⟨.ofList (Text.kept (Text.writeList s.tokens.toList)), ?_, ?_⟩
  · rw [← String.toList_inj, toList_traceLine, String.toList_append, String.toList_ofList]
  · rw [String.toList_ofList]
    obtain ⟨htagged, hkept⟩ | ⟨htagged, hnone⟩ := Text.kept_writeList_cases s.tokens.toList
    · refine .inl ⟨htagged, ?_, ?_⟩
      · rw [hkept, Text.jsonList]
      · rw [hkept, Text.readList?_writeList]
    · refine .inr ⟨htagged, fun h => htagged (Text.kept_eq_iff.mp ?_), hnone⟩
      rwa [Text.jsonList, ← String.toList_inj, String.toList_ofList, String.toList_ofList] at h

theorem newline_notMem_traceLine (c : Option Char) (s : Line.Scan) :
    '\n' ∉ (traceLine c s).toList := by
  intro h
  rw [toList_traceLine] at h
  exact absurd (isPrintable_shown c s _ h) (by decide)

/-! ## The trace -/

/-- What a trace shows: the initial state, and each character with the state behind it. -/
def steps (line : String) : List (Option Char × Line.Scan) :=
  (none, {}) :: (({} : Line.Scan).trace line.toList).map fun step => (some step.1, step.2)

theorem traceLines_eq (line : String) :
    traceLines line = (steps line).map fun step => traceLine step.1 step.2 := by
  simp only [traceLines, steps, List.map_cons, List.map_map]
  rfl

theorem map_snd_steps (line : String) : (steps line).map Prod.snd = Line.states line := by
  simp only [steps, Line.states, List.map_cons, List.map_map]
  rfl

theorem map_fst_steps (line : String) : (steps line).map Prod.fst =
    none :: (line.toList.take (({} : Line.Scan).trace line.toList).length).map some := by
  rw [← Line.Scan.map_fst_trace]
  simp only [steps, List.map_cons, List.map_map]
  rfl

/-- What is printed for a line with its trace. -/
theorem stdout_trace {line : String} (hdash : line.toList.head? ≠ some '-') (m : Machine)
    (input : List String) (inputEnd : Repl.InputEnd) :
    (respond m ["tokenize", "--trace", line] input inputEnd).transcript.stdout =
      String.join ((steps line).map fun step => traceLine step.1 step.2 ++ "\n") ++
        (Line.tokenize line).toOption.elim "" fun tokens => Text.jsonList tokens ++ "\n" := by
  simp only [respond, parse_tokenize_trace hdash, answer, tokenize, if_true, traceLines_eq,
    List.map_map]
  cases Line.tokenize line with
  | ok tokens => exact String.append_assoc
  | error fault => rfl

/-- **What the printed steps of a scan show.**  The normal stream shows a line for the initial state
and one for each character, in order, up to the end or to the first character that is refused, each
with the state that the characters up to there lead to; the words follow if the line can be read.
In every line the text behind the index is the JSON of the words, which gives them back, if every
bracket behind a backslash begins a tag in it; this holds whenever no word has a bracket right
behind a backslash.  Otherwise the text is not the JSON of the words, and no JSON of words at all. -/
theorem respond_trace {line : String} (hdash : line.toList.head? ≠ some '-') (m : Machine)
    (input : List String) (inputEnd : Repl.InputEnd) :
    (respond m ["tokenize", "--trace", line] input inputEnd).transcript.stdout =
      String.join ((steps line).map fun step => traceLine step.1 step.2 ++ "\n") ++
        (Line.tokenize line).toOption.elim "" (fun tokens => Text.jsonList tokens ++ "\n") ∧
    (∃ n, (steps line).map Prod.fst = none :: (line.toList.take n).map some ∧
      (∀ k s, ((steps line).map Prod.snd)[k]? = some s →
        ({} : Line.Scan).run (line.toList.take k) = .ok s) ∧
      (n = line.length ∨ ∃ c s fault, line.toList[n]? = some c ∧
        ((steps line).map Prod.snd)[n]? = some s ∧ s.step c = .error fault ∧
        Line.tokenize line = .error fault)) ∧
    ∀ step ∈ steps line, ∃ words : String,
      traceLine step.1 step.2 =
        Text.padLeft 8 (traceLabel step.1) ++ " " ++ traceState step.2 ++ words ∧
      '\n' ∉ (traceLine step.1 step.2).toList ∧
      (Text.BracketsTagged (Text.writeList step.2.tokens.toList) ∧
          words = Text.jsonList step.2.tokens.toList ∧
          Text.readList? words.toList = some step.2.tokens.toList ∨
        ¬ Text.BracketsTagged (Text.writeList step.2.tokens.toList) ∧
          words ≠ Text.jsonList step.2.tokens.toList ∧ Text.readList? words.toList = none) ∧
      ((∀ word ∈ step.2.tokens.toList, ¬ Text.slashBracket <:+: word.toList) →
        Text.BracketsTagged (Text.writeList step.2.tokens.toList)) := by
  refine ⟨stdout_trace hdash m input inputEnd, ⟨_, map_fst_steps line, ?_, ?_⟩, ?_⟩
  · intro k s hs
    rw [map_snd_steps] at hs
    exact Line.Scan.run_take_of_getElem? hs
  · rw [map_snd_steps]
    obtain ⟨hend, -⟩ | ⟨c, s, fault, hc, hs, hrefused, hline⟩ := Line.refused_behind_trace line
    · exact .inl hend
    · exact .inr ⟨c, s, fault, hc, hs, hrefused.step, hline⟩
  · intro step _
    obtain ⟨words, hline, hwords⟩ := exists_words step.1 step.2
    exact ⟨words, hline, newline_notMem_traceLine step.1 step.2, hwords,
      Text.bracketsTagged_writeList⟩

/-- Two backslashes and a bracket, which begins a tag in the JSON of the word with the letter. -/
theorem respond_trace_tagged :
    let line := "\\\\[x"
    line.toList.head? ≠ some '-' ∧ ∃ step ∈ steps line, step.1 = some 'x' ∧
      traceLine step.1 step.2 =
        "     'x' NONE        escape=0 ws=0 index=0 " ++ Text.jsonList ["\\[x"] := by
  intro line
  have hdash : line.toList.head? ≠ some '-' := by decide
  let m : Machine := ⟨none, "box", fun _ => .error .missing, "", none⟩
  obtain ⟨-, -, hlines⟩ := respond_trace hdash m [] .endOfInput
  let s : Line.Scan := ⟨#[], some "\\[x", .outside, false, false⟩
  have hstep : (some 'x', s) ∈ steps line := by decide +kernel
  have htagged : Text.BracketsTagged (Text.writeList s.tokens.toList) :=
    Text.kept_eq_iff.mp (by decide +kernel)
  obtain ⟨words, hline, -, hwords, -⟩ := hlines _ hstep
  obtain ⟨-, rfl, -⟩ | ⟨hlost, -⟩ := hwords
  · exact ⟨hdash, _, hstep, rfl, hline.trans (by decide +kernel)⟩
  · exact absurd htagged hlost

/-- Two backslashes and a bracket: a backslash of the last step's JSON is lost, and what is left
cannot be read, while the words below it can. -/
theorem respond_trace_loses :
    let m : Machine := ⟨none, "box", fun _ => .error .missing, "", none⟩
    let s : Line.Scan := ⟨#[], some "\\[", .outside, false, false⟩
    (some '[', s) ∈ steps "\\\\[" ∧
    traceLine (some '[') s = "     '[' NONE        escape=0 ws=0 index=0 [\"\\[\"]" ∧
    Text.jsonList s.tokens.toList = "[\"\\\\[\"]" ∧ Text.readList? "[\"\\[\"]".toList = none ∧
    (respond m ["tokenize", "--trace", "\\\\["] [] .endOfInput).transcript.stdout =
      "   start NONE        escape=0 ws=1 index=0 []\n" ++
      "    '\\\\' NONE        escape=1 ws=1 index=0 []\n" ++
      "    '\\\\' NONE        escape=0 ws=1 index=0 [\"\\\\\"]\n" ++
      "     '[' NONE        escape=0 ws=0 index=0 [\"\\[\"]\n" ++
      "[\"\\\\[\"]\n" := by
  intro m s
  refine ⟨by decide +kernel, by decide +kernel, by decide +kernel, by decide +kernel, ?_⟩
  decide +kernel

end LineShell.Cli
