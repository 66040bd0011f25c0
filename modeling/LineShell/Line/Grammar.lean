import LineShell.Line.Scan

/-!
# Line/Grammar — which lines can be read, and as which words

The grammar relates what is written to the words that it means, without looking at how a line is
scanned. A bare word mixes escapes and ordinary characters; a quoted word is a block between two
equal quotes, with nothing but escapes in front of it. Words are kept apart by blanks, which may
also stand at both ends of a line.
-/

namespace LineShell.Line

/-- A run of escapes, and the characters that they stand for. -/
inductive Escapes : List Char → List Char → Prop
  | nil : Escapes [] []
  | cons {c : Char} {cs vs : List Char} : isEscapable c = true → Escapes cs vs →
      Escapes ('\\' :: c :: cs) (c :: vs)

/-- Escapes and ordinary characters, and what they stand for. -/
inductive Bare : List Char → List Char → Prop
  | nil : Bare [] []
  | escape {c : Char} {cs vs : List Char} : isEscapable c = true → Bare cs vs →
      Bare ('\\' :: c :: cs) (c :: vs)
  | ordinary {c : Char} {cs vs : List Char} : isOrdinary c = true → Bare cs vs →
      Bare (c :: cs) (c :: vs)

/-- What stands inside a block that `q` delimits, and what it stands for. -/
inductive Block (q : Quote) : List Char → List Char → Prop
  | nil : Block q [] []
  | escape {c : Char} {cs vs : List Char} : isEscapable c = true → Block q cs vs →
      Block q ('\\' :: c :: cs) (c :: vs)
  | plain {c : Char} {cs vs : List Char} : c ≠ '\\' → c ≠ q.char → Block q cs vs →
      Block q (c :: cs) (c :: vs)

/-- A written word, and what it stands for. -/
inductive Word : List Char → List Char → Prop
  | bare {cs vs : List Char} : cs ≠ [] → Bare cs vs → Word cs vs
  | quoted (q : Quote) {front vs block ws : List Char} : Escapes front vs → Block q block ws →
      Word (front ++ q.char :: block ++ [q.char]) (vs ++ ws)

/-- A run of blanks. -/
def Blanks (cs : List Char) : Prop := ∀ c ∈ cs, Text.isBlank c = true

instance (cs : List Char) : Decidable (Blanks cs) := List.decidableBAll _ cs

/-- A line, and the words that it stands for. -/
inductive Derives : List Char → List (List Char) → Prop
  | blanks {gap : List Char} : Blanks gap → Derives gap []
  | last {gap word value : List Char} : Blanks gap → Word word value →
      Derives (gap ++ word) [value]
  | cons {gap word value rest : List Char} {b : Char} {values : List (List Char)} : Blanks gap →
      Word word value → Text.isBlank b = true → Derives rest values →
      Derives (gap ++ word ++ b :: rest) (value :: values)

theorem Bare.append {cs vs ds ws : List Char} (h : Bare cs vs) (k : Bare ds ws) :
    Bare (cs ++ ds) (vs ++ ws) := by
  induction h with
  | nil => exact k
  | escape hc _ ih => exact .escape hc ih
  | ordinary hc _ ih => exact .ordinary hc ih

theorem Block.append {q : Quote} {cs vs ds ws : List Char} (h : Block q cs vs)
    (k : Block q ds ws) : Block q (cs ++ ds) (vs ++ ws) := by
  induction h with
  | nil => exact k
  | escape hc _ ih => exact .escape hc ih
  | plain hc hq _ ih => exact .plain hc hq ih

/-- A run of escapes is a bare text. -/
theorem Escapes.bare {cs vs : List Char} (h : Escapes cs vs) : Bare cs vs := by
  induction h with
  | nil => exact .nil
  | cons hc _ ih => exact .escape hc ih

/-- Every word is written with at least one character. -/
theorem Word.ne_nil {cs vs : List Char} (h : Word cs vs) : cs ≠ [] := by
  cases h with
  | bare hne _ => exact hne
  | quoted => simp

theorem Blanks.append {cs ds : List Char} (h : Blanks cs) (k : Blanks ds) : Blanks (cs ++ ds) := by
  intro c hc
  rcases List.mem_append.mp hc with hc | hc
  · exact h c hc
  · exact k c hc

/-- Blanks in front of a line change nothing. -/
theorem Derives.append_left {gap cs : List Char} {vs : List (List Char)} (hg : Blanks gap)
    (h : Derives cs vs) : Derives (gap ++ cs) vs := by
  cases h with
  | blanks hb => exact .blanks (hg.append hb)
  | last hb hw => rw [← List.append_assoc]; exact .last (hg.append hb) hw
  | cons hb hw hc hr =>
      rw [← List.append_assoc, ← List.append_assoc]
      exact .cons (hg.append hb) hw hc hr

end LineShell.Line
