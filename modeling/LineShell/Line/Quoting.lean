import LineShell.Line.Grammar

/-!
# Line/Quoting — writing a text as a word

A text can be written bare, between double quotes or between single quotes. Each style puts a
backslash before every backslash and before the quotes that have a meaning in it. What a style
writes is a word that stands for the text (`word_write`).
-/

namespace LineShell.Line

/-- The text with a backslash before every character that a test marks. -/
def escapeIf (marked : Char → Bool) : List Char → List Char
  | [] => []
  | c :: rest => if marked c then '\\' :: c :: escapeIf marked rest else c :: escapeIf marked rest

/-- A way to write a text as one word. -/
inductive Style where
  | bare
  | block (q : Quote)
  deriving DecidableEq, Repr

namespace Style

/-- The style can write the text: any text fits into a block, but a bare word is not empty and
holds no blank. -/
def Applies : Style → List Char → Prop
  | bare, cs => cs ≠ [] ∧ ∀ c ∈ cs, Text.isBlank c = false
  | block _, _ => True

instance : (s : Style) → (cs : List Char) → Decidable (s.Applies cs)
  | bare, cs =>
      -- the bounded test, so that no instance for all characters is chosen in its place
      letI : Decidable (∀ c ∈ cs, Text.isBlank c = false) := List.decidableBAll _ cs
      inferInstanceAs (Decidable (cs ≠ [] ∧ ∀ c ∈ cs, Text.isBlank c = false))
  | block _, _ => inferInstanceAs (Decidable True)

/-- The word that the style writes for a text. -/
def write : Style → List Char → List Char
  | bare, cs => escapeIf isEscapable cs
  | block q, cs => q.char :: escapeIf (fun c => c == q.char || c == '\\') cs ++ [q.char]

end Style

theorem bare_escapeIf : ∀ {cs : List Char}, (∀ c ∈ cs, Text.isBlank c = false) →
    Bare (escapeIf isEscapable cs) cs
  | [], _ => .nil
  | c :: rest, h => by
      have ih : Bare (escapeIf isEscapable rest) rest :=
        bare_escapeIf fun d hd => h d (List.mem_cons_of_mem c hd)
      by_cases hc : isEscapable c = true
      · simpa [escapeIf, hc] using Bare.escape hc ih
      · have : isOrdinary c = true := by simp [isOrdinary, h c, hc]
        simpa [escapeIf, hc] using Bare.ordinary this ih

theorem block_escapeIf (q : Quote) : ∀ (cs : List Char),
    Block q (escapeIf (fun c => c == q.char || c == '\\') cs) cs
  | [] => .nil
  | c :: rest => by
      have ih := block_escapeIf q rest
      by_cases hc : (c == q.char || c == '\\') = true
      · have he : isEscapable c = true := by
          rcases Bool.or_eq_true_iff.mp hc with h | h
          · rw [eq_of_beq h]; exact isEscapable_quote q
          · rw [eq_of_beq h]; decide
        simpa [escapeIf, hc] using Block.escape he ih
      · have hne : c ≠ q.char ∧ c ≠ '\\' := by simpa using hc
        simpa [escapeIf, hc] using Block.plain hne.2 hne.1 ih

/-- **What a style writes stands for the text.** -/
theorem word_write {s : Style} {cs : List Char} (h : s.Applies cs) : Word (s.write cs) cs := by
  cases s with
  | bare =>
      refine .bare ?_ (bare_escapeIf h.2)
      match cs, h.1 with
      | c :: rest, _ =>
          simp only [Style.write, escapeIf]
          split <;> simp
  | block q => exact .quoted q .nil (block_escapeIf q cs)

/-- A word that stands for a text: between double quotes, which any text allows. -/
def quote (s : String) : String := .ofList ((Style.block .double).write s.toList)

end LineShell.Line
