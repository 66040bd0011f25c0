import LineShell.Config.Template.Format

/-!
# Config/Template/Basic — filling a template

A template is text with fields in braces; doubled braces stand for single ones. A field names a
value, may pick characters of it by index, and may convert it to a literal and fit it into a width.
The pieces of a template are filled from left to right, so the leftmost fault is reported; what a
value holds is never read as a template again. A format may itself have fields, one level deep.
-/

namespace LineShell.Template

/-- The parts of a field, as they are written. -/
structure Field where
  /-- The name with its indices and attributes. -/
  path : List Char
  conversion : Option Char := none
  /-- The format, whose own fields are not filled yet. -/
  format : List Char := []
  deriving DecidableEq, Repr

/-- A piece of a template. -/
inductive Piece where
  | char (c : Char)
  | field (f : Field)
  /-- The rest of the template cannot be read. -/
  | broken (fault : Fault)
  deriving DecidableEq, Repr

/-! ## Reading a template -/

/-- A reading with one more character in front of what was read. -/
def consRead {α : Type} (c : Char) (r : Except Fault (List Char × α)) :
    Except Fault (List Char × α) :=
  r.map fun (cs, a) => (c :: cs, a)

theorem exists_of_consRead {α : Type} {c : Char} {r : Except Fault (List Char × α)}
    {cs : List Char} {a : α} (h : consRead c r = .ok (cs, a)) : ∃ ds, r = .ok (ds, a) := by
  match r, h with
  | .ok (ds, b), h => cases h; exact ⟨ds, rfl⟩

/-- Reads the path of a field: the path, the character that ends it, and the rest. -/
def readPath : (inIndex : Bool) → List Char → Except Fault (List Char × Char × List Char)
  | _, [] => .error .unclosed
  | true, c :: rest => consRead c (readPath (c != ']') rest)
  | false, c :: rest =>
      if c = '\x7b' then .error .openInName
      else if c = '\x7d' ∨ c = ':' ∨ c = '!' then .ok ([], c, rest)
      else consRead c (readPath (c == '[') rest)

/-- Reads a format up to the brace that closes its field; `inner` further braces are open. -/
def readFormat : (inner : Nat) → List Char → Except Fault (List Char × List Char)
  | _, [] => .error .unclosedFormat
  | inner, c :: rest =>
      if c = '\x7b' then consRead c (readFormat (inner + 1) rest)
      else if c = '\x7d' then
        if inner = 0 then .ok ([], rest) else consRead c (readFormat (inner - 1) rest)
      else consRead c (readFormat inner rest)

/-- Reads what follows the path of a field and the character that ends it. -/
def readOptions (path : List Char) (stop : Char) (cs : List Char) :
    Except Fault (Field × List Char) :=
  if stop = '\x7d' then .ok ({ path }, cs)
  else if stop = ':' then (readFormat 0 cs).map fun (format, after) => ({ path, format }, after)
  else match cs with
    | [] => .error .noConversion
    | [_] => .error .unclosedFormat
    | c :: '\x7d' :: rest => .ok ({ path, conversion := some c }, rest)
    | c :: ':' :: rest =>
        (readFormat 0 rest).map fun (format, after) => (⟨path, some c, format⟩, after)
    | _ => .error .noColon

/-- Reads a field after its opening brace. -/
def readField (cs : List Char) : Except Fault (Field × List Char) :=
  match readPath false cs with
  | .ok (path, stop, rest) => readOptions path stop rest
  | .error fault => .error fault

theorem length_readPath : ∀ {inIndex : Bool} {cs path : List Char} {stop : Char}
    {after : List Char}, readPath inIndex cs = .ok (path, stop, after) → after.length < cs.length
  | true, c :: rest, _, _, _, h => by
      obtain ⟨_, hr⟩ := exists_of_consRead h
      exact Nat.lt_succ_of_lt (length_readPath hr)
  | false, c :: rest, _, _, _, h => by
      rw [readPath] at h
      split at h
      · cases h
      · split at h
        · cases h; simp
        · obtain ⟨_, hr⟩ := exists_of_consRead h
          exact Nat.lt_succ_of_lt (length_readPath hr)

theorem length_readFormat : ∀ {inner : Nat} {cs format after : List Char},
    readFormat inner cs = .ok (format, after) → after.length < cs.length
  | inner, c :: rest, _, _, h => by
      rw [readFormat] at h
      split at h
      · obtain ⟨_, hr⟩ := exists_of_consRead h
        exact Nat.lt_succ_of_lt (length_readFormat hr)
      · split at h
        · split at h
          · cases h; simp
          · obtain ⟨_, hr⟩ := exists_of_consRead h
            exact Nat.lt_succ_of_lt (length_readFormat hr)
        · obtain ⟨_, hr⟩ := exists_of_consRead h
          exact Nat.lt_succ_of_lt (length_readFormat hr)

theorem length_readOptions {path : List Char} {stop : Char} {cs : List Char} {f : Field}
    {after : List Char} (h : readOptions path stop cs = .ok (f, after)) :
    after.length ≤ cs.length := by
  unfold readOptions at h
  split at h
  · cases h; exact Nat.le_refl _
  · split at h
    · match hr : readFormat 0 cs with
      | .error _ => rw [hr] at h; cases h
      | .ok (g, a) => rw [hr] at h; cases h; exact Nat.le_of_lt (length_readFormat hr)
    · split at h
      · cases h
      · cases h
      · cases h; simp; omega
      · next c rest =>
          match hr : readFormat 0 rest with
          | .error _ => rw [hr] at h; cases h
          | .ok (g, a) =>
              rw [hr] at h
              cases h
              have := length_readFormat hr
              simp only [List.length_cons]
              omega
      · cases h

/-- A field takes at least one character. -/
theorem length_readField {cs : List Char} {f : Field} {after : List Char}
    (h : readField cs = .ok (f, after)) : after.length < cs.length := by
  unfold readField at h
  match hr : readPath false cs with
  | .error _ => rw [hr] at h; cases h
  | .ok (p, s, rest) =>
      rw [hr] at h
      exact Nat.lt_of_le_of_lt (length_readOptions h) (length_readPath hr)

/-- The pieces of a template, up to the first that cannot be read. -/
def pieces (cs : List Char) : List Piece :=
  match cs with
  | [] => []
  | '\x7b' :: '\x7b' :: rest => .char '\x7b' :: pieces rest
  | '\x7d' :: '\x7d' :: rest => .char '\x7d' :: pieces rest
  | ['\x7b'] => [.broken .singleOpen]
  | '\x7d' :: _ => [.broken .singleClose]
  | '\x7b' :: rest =>
      match _h : readField rest with
      | .ok (f, after) => .field f :: pieces after
      | .error fault => [.broken fault]
  | c :: rest => .char c :: pieces rest
termination_by cs.length
decreasing_by
  all_goals simp only [List.length_cons]
  · omega
  · omega
  · have := length_readField _h; omega
  · omega

theorem pieces_nil : pieces [] = [] := by rw [pieces]

/-- A character that is no brace is a piece of its own. -/
theorem pieces_cons {c : Char} (ho : c ≠ '\x7b') (hc : c ≠ '\x7d') (rest : List Char) :
    pieces (c :: rest) = .char c :: pieces rest := by
  simp [pieces, ho, hc]

/-! ## Filling the pieces -/

/-- The values of the fields, by name. -/
abbrev Values := List (String × String)

/-- Splits a path before the first index or attribute. -/
def splitName (path : List Char) : List Char × List Char :=
  path.span fun c => c != '.' && c != '['

/-- A number that is the whole of a text; the number may be too large, a text may be none. -/
def wholeNumber? (cs : List Char) : Except Fault (Option Nat) := do
  if cs.isEmpty then return none
  let (n, _, rest) ← digits 0 0 cs
  return if rest.isEmpty then some n else none

/-- The value of the field that a name or position denotes. -/
def lookUp (values : Values) (name : List Char) : Except Fault (List Char) := do
  match ← wholeNumber? name with
  | some n => throw (.noPosition n)
  | none =>
      if name.isEmpty then throw (.noPosition 0)
      match values.lookup (.ofList name) with
      | some value => return value.toList
      | none => throw (.unknownField (.ofList name))

/-- Picks the character of a value that an index denotes. -/
def pick (value index : List Char) : Except Fault (List Char) := do
  let position? ← wholeNumber? index
  if index.isEmpty then throw .emptyAccess
  match position? with
  | none => throw .notAnIndex
  | some n =>
      match value[n]? with
      | some c => return [c]
      | none => throw .indexOutOfRange

/-- Follows the indices and attributes of a path, of which there are fewer than the bound. -/
def follow : (bound : Nat) → (value path : List Char) → Except Fault (List Char)
  | _, value, [] => .ok value
  | 0, value, _ :: _ => .ok value
  | bound + 1, value, '[' :: rest => do
      let (index, after) := rest.span (· != ']')
      let picked ← pick value index
      follow bound picked (after.drop 1)
  | _ + 1, _, '.' :: rest =>
      let (name, _) := splitName rest
      if name.isEmpty then .error .emptyAccess else .error (.noAttribute (.ofList name))
  | _ + 1, _, _ :: _ => .error .badAccess

/-- Converts a value; the character `U+0000` asks for no conversion. -/
def convert (value : List Char) : Option Char → Except Fault (List Char)
  | none => .ok value
  | some 's' => .ok value
  | some '\x00' => .ok value
  | some 'r' => .ok (Text.literal (.ofList value)).toList
  | some 'a' => .ok (Text.asciiLiteral (.ofList value)).toList
  | some c => .error (.unknownConversion c)

/-- What a field shows; `expand` fills the fields of its format. -/
def fillField (expand : List Char → Except Fault (List Char)) (values : Values) (f : Field) :
    Except Fault (List Char) := do
  let (name, path) := splitName f.path
  let value ← lookUp values name
  let value ← follow path.length value path
  let value ← convert value f.conversion
  let format ← if f.format.contains '\x7b' then expand f.format else pure f.format
  applyFormat format value

/-- What a piece shows. -/
def fillPiece (expand : List Char → Except Fault (List Char)) (values : Values) :
    Piece → Except Fault (List Char)
  | .char c => .ok [c]
  | .field f => fillField expand values f
  | .broken fault => .error fault

/-- What pieces show one after the other, up to the first fault. -/
def fillPieces (expand : List Char → Except Fault (List Char)) (values : Values) :
    List Piece → Except Fault (List Char)
  | [] => .ok []
  | piece :: rest =>
      match fillPiece expand values piece with
      | .ok shown => (fillPieces expand values rest).map (shown ++ ·)
      | .error fault => .error fault

/-- What a template shows, with formats nested less deeply than the bound. -/
def expand (values : Values) : (depth : Nat) → List Char → Except Fault (List Char)
  | 0, _ => .error .nestedTooDeep
  | depth + 1, cs => fillPieces (expand values depth) values (pieces cs)

/-- What a template shows for the values of its fields. -/
def fill (values : Values) (template : String) : Except Fault String :=
  (expand values 2 template.toList).map String.ofList

end LineShell.Template
