/-!
# Text/Lines — line ends and separators

`unifyBreaks` makes a line feed of each of the three line ends: line feed, carriage return, and the
two in this order. `splitAt` cuts at every occurrence of a separator, so a text with `n` separators
has `n + 1` pieces, none of which holds it; `joinWith` undoes it (`joinWith_splitAt`), and what was
joined is cut in the same places (`splitAt_joinWith`).
-/

namespace LineShell.Text

/-- Writes every line end as one line feed. -/
def unifyBreaks : List Char → List Char
  | [] => []
  | '\r' :: '\n' :: rest => '\n' :: unifyBreaks rest
  | '\r' :: rest => '\n' :: unifyBreaks rest
  | c :: rest => c :: unifyBreaks rest

/-- The pieces between the occurrences of a separator. -/
def splitAt (sep : Char) : List Char → List (List Char)
  | [] => [[]]
  | c :: rest =>
      if c = sep then [] :: splitAt sep rest
      else match splitAt sep rest with
        | [] => [[c]]
        | piece :: pieces => (c :: piece) :: pieces

/-- The pieces with a separator between neighbours. -/
def joinWith (sep : Char) : List (List Char) → List Char
  | [] => []
  | [piece] => piece
  | piece :: pieces => piece ++ sep :: joinWith sep pieces

theorem splitAt_ne_nil (sep : Char) : ∀ (cs : List Char), splitAt sep cs ≠ []
  | [] => by simp [splitAt]
  | c :: rest => by
      simp only [splitAt]
      split
      · simp
      · split <;> simp

theorem joinWith_splitAt (sep : Char) : ∀ (cs : List Char), joinWith sep (splitAt sep cs) = cs
  | [] => rfl
  | c :: rest => by
      have ih := joinWith_splitAt sep rest
      have hne := splitAt_ne_nil sep rest
      simp only [splitAt]
      split
      · next h =>
          match hs : splitAt sep rest, hne with
          | piece :: pieces, _ => rw [hs] at ih; simp [joinWith, ih, h]
      · match hs : splitAt sep rest, hne with
        | [piece], _ => rw [hs] at ih; simpa [joinWith] using ih
        | piece :: next :: pieces, _ => rw [hs] at ih; simpa [joinWith] using ih

/-- No piece holds the separator. -/
theorem notMem_of_mem_splitAt (sep : Char) : ∀ {cs piece : List Char},
    piece ∈ splitAt sep cs → sep ∉ piece
  | [], piece, h => by
      obtain rfl : piece = [] := by simpa [splitAt] using h
      simp
  | c :: rest, piece, h => by
      have ih : ∀ p ∈ splitAt sep rest, sep ∉ p := fun p hp => notMem_of_mem_splitAt sep hp
      have hne := splitAt_ne_nil sep rest
      simp only [splitAt] at h
      split at h
      · rcases List.mem_cons.mp h with rfl | h
        · simp
        · exact ih piece h
      · next hc =>
          match hs : splitAt sep rest, hne with
          | first :: others, _ =>
              rw [hs] at h ih
              rcases List.mem_cons.mp h with rfl | h
              · have := ih first (by simp)
                simp [this, Ne.symm hc]
              · exact ih piece (by simp [h])

/-- A text without the separator is its only piece. -/
theorem splitAt_of_notMem (sep : Char) : ∀ {cs : List Char}, sep ∉ cs → splitAt sep cs = [cs]
  | [], _ => rfl
  | c :: rest, h => by
      rw [List.mem_cons, not_or] at h
      simp [splitAt, Ne.symm h.1, splitAt_of_notMem sep h.2]

theorem splitAt_append_cons (sep : Char) (ys : List Char) : ∀ {xs : List Char}, sep ∉ xs →
    splitAt sep (xs ++ sep :: ys) = xs :: splitAt sep ys
  | [], _ => by simp [splitAt]
  | c :: xs, h => by
      rw [List.mem_cons, not_or] at h
      simp [splitAt, Ne.symm h.1, splitAt_append_cons sep ys h.2]

/-- Pieces without the separator are cut where they were joined. -/
theorem splitAt_joinWith (sep : Char) : ∀ {pieces : List (List Char)}, pieces ≠ [] →
    (∀ piece ∈ pieces, sep ∉ piece) → splitAt sep (joinWith sep pieces) = pieces
  | [piece], _, h => splitAt_of_notMem sep (h piece (by simp))
  | piece :: next :: others, _, h => by
      have ih : splitAt sep (joinWith sep (next :: others)) = next :: others :=
        splitAt_joinWith sep (by simp) fun p hp => h p (List.mem_cons_of_mem piece hp)
      rw [joinWith, splitAt_append_cons sep _ (h piece (by simp)), ih]
      exact List.cons_ne_nil next others

/-- The pieces of a text between the occurrences of a separator. -/
def pieces (sep : Char) (s : String) : List String := (splitAt sep s.toList).map String.ofList

/-- No piece holds the separator. -/
theorem notMem_of_mem_pieces {sep : Char} {s piece : String} (h : piece ∈ pieces sep s) :
    sep ∉ piece.toList := by
  obtain ⟨cs, hcs, rfl⟩ := List.mem_map.mp h
  rw [String.toList_ofList]
  exact notMem_of_mem_splitAt sep hcs

/-- Two pieces are cut where they were joined. -/
theorem pieces_append_singleton {sep : Char} {s t : String} (hs : sep ∉ s.toList)
    (ht : sep ∉ t.toList) : pieces sep (s ++ String.singleton sep ++ t) = [s, t] := by
  have hlist : (s ++ String.singleton sep ++ t).toList = s.toList ++ sep :: t.toList := by simp
  rw [pieces, hlist, splitAt_append_cons sep _ hs, splitAt_of_notMem sep ht]
  simp

/-- The lines that an input stream yields: a last line needs no line feed, an empty one is none. -/
def inputLines (s : String) : List String :=
  let lines := pieces '\n' s
  if lines.getLast? = some "" then lines.dropLast else lines

end LineShell.Text
