import LineShell.Text.Lines

/-!
# Proofs/Text/LineEnds — the three line ends are one

    line ⟨end⟩ line ⟨end⟩ line   ──unifyBreaks──▸   line ⏎ line ⏎ line

Lines that hold neither a line feed nor a carriage return come apart where they were joined,
whichever line end stands between them (`pieces_join`).  A lone carriage return is the delicate one,
since with a line feed behind it the two would be one end; but the text behind it has no line feed
when carriage returns are used throughout.
-/

namespace LineShell.Text

/-- What stands between the lines of a text. -/
inductive LineEnd where
  | lineFeed
  | carriageReturn
  /-- A carriage return and a line feed. -/
  | both
  deriving DecidableEq, Repr

namespace LineEnd

/-- The characters of a line end. -/
def chars : LineEnd → List Char
  | lineFeed => ['\n']
  | carriageReturn => ['\r']
  | both => ['\r', '\n']

/-- The text that has a line end between neighbouring lines. -/
def join (e : LineEnd) (lines : List String) : List Char :=
  e.chars.intercalate (lines.map String.toList)

end LineEnd

/-! ## Line ends become line feeds -/

theorem unifyBreaks_append (rest : List Char) : ∀ {piece : List Char}, '\r' ∉ piece →
    unifyBreaks (piece ++ rest) = piece ++ unifyBreaks rest
  | [], _ => rfl
  | c :: piece, h => by
    obtain ⟨hc, hpiece⟩ := not_or.mp (mt List.mem_cons.mpr h)
    rw [List.cons_append, unifyBreaks, unifyBreaks_append rest hpiece, List.cons_append]
    · exact fun _ he => absurd he.symm hc
    · exact fun he => hc he.symm

theorem unifyBreaks_of_notMem {cs : List Char} (h : '\r' ∉ cs) : unifyBreaks cs = cs := by
  have happend := unifyBreaks_append [] h
  rwa [List.append_nil, unifyBreaks, List.append_nil] at happend

/-- A line end is one line feed, unless it lacks one and the text goes on with it. -/
theorem unifyBreaks_chars_append {e : LineEnd} {rest : List Char}
    (h : '\n' ∈ rest → '\n' ∈ e.chars) :
    unifyBreaks (e.chars ++ rest) = '\n' :: unifyBreaks rest := by
  cases e with
  | lineFeed => rfl
  | both => rfl
  | carriageReturn =>
    cases rest with
    | nil => rfl
    | cons c rest =>
      have hc : c ≠ '\n' := fun hc => by simp [hc, LineEnd.chars] at h
      rw [LineEnd.chars, List.cons_append, List.nil_append, unifyBreaks]
      exact fun _ he => hc (List.cons.inj he).1

theorem notMem_intercalate {c : Char} {sep : List Char} (hsep : c ∉ sep) :
    ∀ {pieces : List (List Char)}, (∀ piece ∈ pieces, c ∉ piece) → c ∉ sep.intercalate pieces
  | [], _ => List.not_mem_nil
  | [piece], h => by simpa using h
  | piece :: next :: others, h => by
    have hrest := notMem_intercalate hsep fun p hp => h p (List.mem_cons_of_mem piece hp)
    simp [List.intercalate_cons_cons, h piece List.mem_cons_self, hsep, hrest]

/-- **Every line end between lines becomes a line feed.** -/
theorem unifyBreaks_intercalate (e : LineEnd) : ∀ {pieces : List (List Char)},
    (∀ piece ∈ pieces, '\n' ∉ piece) → (∀ piece ∈ pieces, '\r' ∉ piece) →
      unifyBreaks (e.chars.intercalate pieces) = joinWith '\n' pieces
  | [], _, _ => rfl
  | [piece], _, hr => by
    rw [List.intercalate_singleton, joinWith]
    exact unifyBreaks_of_notMem (hr piece List.mem_cons_self)
  | piece :: next :: others, hn, hr => by
    have hn' := fun p hp => hn p (List.mem_cons_of_mem piece hp)
    have hr' := fun p hp => hr p (List.mem_cons_of_mem piece hp)
    have hfeed : '\n' ∈ e.chars.intercalate (next :: others) → '\n' ∈ e.chars :=
      fun hmem => Decidable.byContradiction fun hsep => notMem_intercalate hsep hn' hmem
    rw [List.intercalate_cons_cons, List.append_assoc, joinWith,
      unifyBreaks_append _ (hr piece List.mem_cons_self), unifyBreaks_chars_append hfeed,
      unifyBreaks_intercalate e hn' hr']
    exact List.cons_ne_nil next others

/-- **Lines come apart where they were joined**, whichever line end stands between them. -/
theorem pieces_join (e : LineEnd) {lines : List String} (hne : lines ≠ [])
    (hn : ∀ line ∈ lines, '\n' ∉ line.toList) (hr : ∀ line ∈ lines, '\r' ∉ line.toList) :
    (splitAt '\n' (unifyBreaks (e.join lines))).map String.ofList = lines := by
  have hn' : ∀ piece ∈ lines.map String.toList, '\n' ∉ piece := by simpa using hn
  have hr' : ∀ piece ∈ lines.map String.toList, '\r' ∉ piece := by simpa using hr
  have hne' : lines.map String.toList ≠ [] := by simpa using hne
  rw [LineEnd.join, unifyBreaks_intercalate e hn' hr', splitAt_joinWith '\n' hne' hn', List.map_map]
  simp [Function.comp_def]

end LineShell.Text
