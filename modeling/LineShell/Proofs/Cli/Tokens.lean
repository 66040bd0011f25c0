import LineShell.Cli.Run
import LineShell.Proofs.Text.JsonStrings
import Mathlib.Data.List.Basic

/-!
# Proofs/Cli/Tokens — the words that are printed can be read back

    line ──tokenize──▸ words ──jsonList──▸ stdout ──readList?──▸ the same words

A line that does not begin with a dash is no option, neither for the program nor for the command,
so it is what is split (`parse_tokenize`).  What is printed then is the words as JSON, one line of
visible ASCII that gives the words back, so it tells words apart (`respond_tokenize`).
-/

namespace LineShell.Cli

/-! ## Words of a command line that are no options -/

namespace Grammar

variable (g : Grammar) {s : String} (h : s.toList.head? ≠ some '-')

include h

theorem classify_word : g.classify s = .ok (.plain s) := if_pos h

theorem words_word (rest : List String) :
    g.words (s :: rest) = (g.words rest).map (.plain s :: ·) := by
  have hs : s ≠ "--" := by
    rintro rfl
    exact h (by decide)
  rw [words, if_neg hs, g.classify_word h]
  cases g.words rest <;> rfl

end Grammar

/-- A command line that begins with the name of a command is read by that command. -/
theorem parse_command {name : String} {args : List String} {words : List Word}
    {request : Request} (hwords : top.words (name :: args) = .ok (.plain name :: words))
    (hread : readCommand false name (words.map Word.written) = .ok (request, [])) :
    Request.parse (name :: args) = .ok request := by
  simp only [Request.parse, hwords]
  change (readCommand false name (words.map Word.written) >>= _) = _
  rw [hread]
  rfl

section Tokenize

variable {line : String} (h : line.toList.head? ≠ some '-')

include h

/-- **A line that does not begin with a dash is what is split…** -/
theorem parse_tokenize : Request.parse ["tokenize", line] = .ok (.tokenize false (some line)) := by
  have hcommand : ("tokenize" : String).toList.head? ≠ some '-' := by decide
  have htop : top.words ["tokenize", line] = .ok [.plain "tokenize", .plain line] := by
    rw [top.words_word hcommand, top.words_word h]
    rfl
  have hpart : tokenizeGrammar.read [line] = .ok { word := some line } := by
    rw [Grammar.read, tokenizeGrammar.words_word h]
    rfl
  refine parse_command htop ?_
  change readCommand false "tokenize" [line] = _
  simp only [readCommand, hpart]
  rfl

/-- **…behind the option that asks for the steps as well.** -/
theorem parse_tokenize_trace :
    Request.parse ["tokenize", "--trace", line] = .ok (.tokenize true (some line)) := by
  have hcommand : ("tokenize" : String).toList.head? ≠ some '-' := by decide
  have hunknown : top.classify "--trace" = .ok (.unknown "--trace") := rfl
  have hoption : tokenizeGrammar.classify "--trace" = .ok (.opt "--trace" .trace false none) :=
    rfl
  have htop : top.words ["tokenize", "--trace", line] =
      .ok [.plain "tokenize", .unknown "--trace", .plain line] := by
    rw [top.words_word hcommand, Grammar.words, if_neg (by decide), hunknown, top.words_word h]
    rfl
  have hpart : tokenizeGrammar.read ["--trace", line] =
      .ok { given := [⟨.trace, none⟩], word := some line } := by
    rw [Grammar.read, Grammar.words, if_neg (by decide), hoption,
      tokenizeGrammar.words_word h]
    rfl
  refine parse_command htop ?_
  change readCommand false "tokenize" ["--trace", line] = _
  simp only [readCommand, hpart]
  rfl

end Tokenize

/-! ## What is printed -/

/-- The words of a line that can be read are printed, and nothing else. -/
theorem respond_of_tokenize {line : String} {tokens : List String}
    (hdash : line.toList.head? ≠ some '-') (hline : Line.tokenize line = .ok tokens) (m : Machine)
    (input : List String) (inputEnd : Repl.InputEnd) :
    respond m ["tokenize", line] input inputEnd = ⟨0, .out (Text.jsonList tokens ++ "\n")⟩ := by
  simp only [respond, parse_tokenize hdash, answer, tokenize, hline, Bool.false_eq_true, if_false,
    String.empty_append]

theorem readList?_jsonList (tokens : List String) :
    Text.readList? (Text.jsonList tokens).toList = some tokens := by
  rw [Text.jsonList, String.toList_ofList, Text.readList?_writeList]

/-- **The words that are printed can be read back.**  A line that can be read and does not begin
with a dash is answered with exit code zero, nothing on the error stream and one line on the normal
one.  All characters of that line are visible ASCII, reading it as JSON gives the words of the line,
and so no other line is answered in the same way unless its words are the same. -/
theorem respond_tokenize {line : String} {tokens : List String}
    (hdash : line.toList.head? ≠ some '-') (hline : Line.tokenize line = .ok tokens) (m : Machine)
    (input : List String) (inputEnd : Repl.InputEnd) :
    ∃ json : List Char,
      respond m ["tokenize", line] input inputEnd = ⟨0, .out (.ofList (json ++ ['\n']))⟩ ∧
      (∀ c ∈ json, Text.IsVisible c) ∧
      Text.readList? json = some tokens ∧
      ∀ (line' : String) (tokens' : List String), line'.toList.head? ≠ some '-' →
        Line.tokenize line' = .ok tokens' → tokens' ≠ tokens →
        ∀ (m' : Machine) (input' : List String) (inputEnd' : Repl.InputEnd),
          (respond m' ["tokenize", line'] input' inputEnd').transcript.stdout ≠
            (respond m ["tokenize", line] input inputEnd).transcript.stdout := by
  refine ⟨Text.writeList tokens, ?_, Text.isVisible_writeList tokens,
    Text.readList?_writeList tokens, ?_⟩
  · rw [respond_of_tokenize hdash hline, String.ofList_append]
    rfl
  · intro line' tokens' hdash' hline' hne m' input' inputEnd' hsame
    rw [respond_of_tokenize hdash' hline', respond_of_tokenize hdash hline] at hsame
    have hjson : Text.jsonList tokens' = Text.jsonList tokens :=
      (String.append_left_inj _).mp hsame
    have hread := readList?_jsonList tokens'
    rw [hjson, readList?_jsonList] at hread
    exact hne (Option.some.inj hread).symm

/-- Quotes and a control character in a word, a character past the first plane, an empty word. -/
theorem respond_tokenize_escapes :
    let m : Machine := ⟨none, "box", fun _ => .error .missing, "", none⟩
    let line := "\"say \\\"hi\\\"\x01\" é😀\t''"
    let json := "[\"say \\\"hi\\\"\\u0001\", \"\\u00e9\\ud83d\\ude00\", \"\"]"
    line.toList.head? ≠ some '-' ∧
    Line.tokenize line = .ok ["say \"hi\"\x01", "é😀", ""] ∧
    respond m ["tokenize", line] [] .endOfInput = ⟨0, .out (json ++ "\n")⟩ ∧
    Text.readList? json.toList = some ["say \"hi\"\x01", "é😀", ""] := by
  intro m line json
  have hdash : line.toList.head? ≠ some '-' := by decide +kernel
  have hline : Line.tokenize line = .ok ["say \"hi\"\x01", "é😀", ""] := by
    decide +kernel
  have hshown : respond m ["tokenize", line] [] .endOfInput = ⟨0, .out (json ++ "\n")⟩ :=
    (respond_of_tokenize hdash hline m [] .endOfInput).trans (by decide +kernel)
  obtain ⟨cs, hending, -, hread, -⟩ := respond_tokenize hdash hline m [] .endOfInput
  have hcs : cs = json.toList := by
    have hout := congrArg (·.transcript.stdout.toList) (hending.symm.trans hshown)
    simpa using hout
  exact ⟨hdash, hline, hshown, hcs ▸ hread⟩

end LineShell.Cli
