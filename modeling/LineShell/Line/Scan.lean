import LineShell.Line.Fault
import LineShell.Text.Blank

/-!
# Line/Scan — splitting a line into words

    start ──step c₁──▸ ──step c₂──▸ ⋯ ──▸ finish

A scan holds the finished words and the word under construction. Blanks outside quotes end a word;
a quote opens a block at the start of a word, possibly after escapes, and a closed block must be
followed by a blank. `tokens` is the view that every snapshot shows; a finished word never changes.
-/

namespace LineShell.Line

/-- The two quote characters. -/
inductive Quote where
  | double
  | single
  deriving DecidableEq, Repr

namespace Quote

/-- The character that opens and closes a block. -/
def char : Quote → Char
  | double => '"'
  | single => '\''

/-- The quote that a character is, if any. -/
def ofChar? (c : Char) : Option Quote :=
  if c = '"' then some double else if c = '\'' then some single else none

theorem ofChar?_char (q : Quote) : ofChar? q.char = some q := by cases q <;> decide

theorem ofChar?_eq_some_iff {c : Char} {q : Quote} : ofChar? c = some q ↔ c = q.char := by
  constructor
  · intro h
    simp only [ofChar?] at h
    split at h
    · next hc => cases h; exact hc
    · split at h
      · next hc => cases h; exact hc
      · cases h
  · rintro rfl; exact ofChar?_char q

theorem char_injective {p q : Quote} (h : p.char = q.char) : p = q := by
  have : some p = some q := by rw [← ofChar?_char p, h, ofChar?_char]
  exact Option.some.inj this

theorem char_ne_backslash (q : Quote) : q.char ≠ '\\' := by cases q <;> decide

end Quote

/-- The character may stand after a backslash. -/
def isEscapable (c : Char) : Bool := (Quote.ofChar? c).isSome || c == '\\'

/-- The character has no meaning of its own: neither blank, nor quote, nor backslash. -/
def isOrdinary (c : Char) : Bool := !Text.isBlank c && !isEscapable c

theorem isBlank_quote (q : Quote) : Text.isBlank q.char = false := by cases q <;> decide

theorem isEscapable_quote (q : Quote) : isEscapable q.char = true := by cases q <;> decide

theorem isOrdinary_quote (q : Quote) : isOrdinary q.char = false := by cases q <;> decide

theorem isEscapable_eq_true_iff {c : Char} :
    isEscapable c = true ↔ (∃ q : Quote, c = q.char) ∨ c = '\\' := by
  simp only [isEscapable, Bool.or_eq_true, Option.isSome_iff_exists, Quote.ofChar?_eq_some_iff,
    beq_iff_eq]

theorem isEscapable_eq_false_iff {c : Char} :
    isEscapable c = false ↔ Quote.ofChar? c = none ∧ c ≠ '\\' := by
  simp [isEscapable]

/-- A blank is neither a quote nor the backslash. -/
theorem isEscapable_of_isBlank {c : Char} (h : Text.isBlank c = true) : isEscapable c = false := by
  cases hc : isEscapable c with
  | false => rfl
  | true =>
    obtain ⟨q, rfl⟩ | rfl := isEscapable_eq_true_iff.mp hc
    · rw [isBlank_quote] at h
      cases h
    · rw [Text.isBlank_backslash] at h
      cases h

/-- Where a scan stands relative to quote blocks. -/
inductive Mode where
  /-- Outside any block. -/
  | outside
  /-- Inside a block that `q` opened. -/
  | inside (q : Quote)
  /-- Right after the quote that closed a block. -/
  | closed
  deriving DecidableEq, Repr

/-- The state of a scan between two characters. -/
structure Scan where
  /-- The words that are complete. -/
  finished : Array String := #[]
  /-- The word under construction; present and empty after an opening quote. -/
  current : Option String := none
  /-- Where the scan stands relative to quote blocks. -/
  mode : Mode := .outside
  /-- The previous character is a backslash that still escapes. -/
  escaping : Bool := false
  /-- No ordinary character has been added since the last separating blank. -/
  afterBlank : Bool := true
  deriving DecidableEq, Repr

namespace Scan

/-- The words read so far, the one under construction included. -/
def tokens (s : Scan) : Array String :=
  match s.current with
  | some word => s.finished.push word
  | none => s.finished

/-- The number of finished words, which is the place of the word under construction. -/
def index (s : Scan) : Nat := s.finished.size

/-- A blank ends the word under construction, if there is one. -/
def separate (s : Scan) : Scan := { finished := s.tokens }

/-- Adds a character to the word under construction, starting one if necessary. -/
def push (s : Scan) (c : Char) : Scan := { s with current := some ((s.current.getD "").push c) }

/-- Adds a character that keeps quotes from opening in this word. -/
def pushOrdinary (s : Scan) (c : Char) : Scan := { s.push c with afterBlank := false }

/-- Opens a quote block; the word exists from here on, even if the block stays empty. -/
def openQuote (s : Scan) (q : Quote) : Scan :=
  { s with current := some (s.current.getD ""), mode := .inside q }

/-- Resolves the character after a backslash. -/
def escape (s : Scan) (c : Char) : Except Fault Scan :=
  if isEscapable c then .ok { s.push c with escaping := false } else .error (.illegalEscape c)

/-- Resolves one character outside quote blocks. -/
def stepOutside (s : Scan) (c : Char) : Except Fault Scan :=
  if s.escaping then s.escape c
  else if Text.isBlank c then .ok s.separate
  else if c = '\\' then .ok { s with escaping := true }
  else match Quote.ofChar? c with
    | some q => if s.afterBlank then .ok (s.openQuote q) else .error .prematureQuote
    | none => .ok (s.pushOrdinary c)

/-- Resolves one character inside a block that `q` opened. -/
def stepInside (s : Scan) (q : Quote) (c : Char) : Except Fault Scan :=
  if s.escaping then s.escape c
  else if c = '\\' then .ok { s with escaping := true }
  else match Quote.ofChar? c with
    | some p => if p = q then .ok { s with mode := .closed } else .ok (s.push c)
    | none => .ok (s.pushOrdinary c)

/-- Resolves one character. -/
def step (s : Scan) (c : Char) : Except Fault Scan :=
  match s.mode with
  | .outside => s.stepOutside c
  | .inside q => s.stepInside q c
  | .closed => if Text.isBlank c then .ok s.separate else .error .missingBlank

/-- Resolves characters in order, up to the first that is refused. -/
def run (s : Scan) : List Char → Except Fault Scan
  | [] => .ok s
  | c :: rest =>
      match s.step c with
      | .ok t => t.run rest
      | .error fault => .error fault

/-- The words of a line that ends here, if it may end here. -/
def finish (s : Scan) : Except Fault (List String) :=
  if s.escaping then .error .hangingEscape
  else match s.mode with
    | .inside _ => .error .unterminatedQuote
    | _ => .ok s.tokens.toList

/-- The state after each character, up to the first that is refused. -/
def trace (s : Scan) : List Char → List (Char × Scan)
  | [] => []
  | c :: rest =>
      match s.step c with
      | .ok t => (c, t) :: t.trace rest
      | .error _ => []

theorem run_append : ∀ (xs : List Char) (s : Scan) (ys : List Char),
    s.run (xs ++ ys) = (s.run xs).bind fun t => t.run ys
  | [], _, _ => rfl
  | c :: xs, s, ys => by
      simp only [List.cons_append, run]
      cases s.step c with
      | ok t => exact run_append xs t ys
      | error _ => rfl

theorem toList_tokens (s : Scan) : s.tokens.toList = s.finished.toList ++ s.current.toList := by
  rcases s with ⟨finished, current, _, _, _⟩
  cases current <;> simp [tokens]

theorem tokens_separate (s : Scan) : s.separate.tokens = s.tokens := rfl

end Scan

/-- The words of a line, quotes and escaping backslashes removed. -/
def tokenize (line : String) : Except Fault (List String) :=
  match ({} : Scan).run line.toList with
  | .ok s => s.finish
  | .error fault => .error fault

end LineShell.Line
