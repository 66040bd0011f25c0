import LineShell.Config.Template.Basic

/-!
# Config/Template/Writing — writing a template

An author thinks of a template as text with fields in it. Writing it doubles the braces of the text
and puts braces around the names of the fields; what it shows is the text with the values of the
fields. Doubled braces are read back one by one, whatever follows (`pieces_doubleBraces_append`).
-/

namespace LineShell.Template

/-- A segment of a template as its author thinks of it. -/
inductive Segment where
  | text (cs : List Char)
  | field (name : String)
  deriving DecidableEq, Repr

/-- The text with each of its braces doubled. -/
def doubleBraces : List Char → List Char
  | [] => []
  | c :: rest =>
      if c = '\x7b' ∨ c = '\x7d' then c :: c :: doubleBraces rest else c :: doubleBraces rest

namespace Segment

/-- How a segment is written. -/
def write : Segment → List Char
  | text cs => doubleBraces cs
  | field name => '\x7b' :: name.toList ++ ['\x7d']

/-- What a segment shows; a field without a value shows nothing. -/
def shown (values : Values) : Segment → List Char
  | text cs => cs
  | field name => ((values.lookup name).getD "").toList

end Segment

/-- The template that segments make. -/
def write (segments : List Segment) : String := .ofList (segments.flatMap Segment.write)

/-- What segments show one after the other. -/
def shown (values : Values) (segments : List Segment) : String :=
  .ofList (segments.flatMap (Segment.shown values))

theorem pieces_doubleBraces_append : ∀ (cs rest : List Char),
    pieces (doubleBraces cs ++ rest) = cs.map Piece.char ++ pieces rest
  | [], _ => rfl
  | c :: cs, rest => by
      have ih := pieces_doubleBraces_append cs rest
      by_cases ho : c = '\x7b'
      · subst ho
        simp [doubleBraces, pieces, ih]
      · by_cases hc : c = '\x7d'
        · subst hc
          simp [doubleBraces, pieces, ih]
        · simp [doubleBraces, pieces, ih, ho, hc]

end LineShell.Template
