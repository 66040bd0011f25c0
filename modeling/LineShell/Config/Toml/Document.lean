import LineShell.Config.Toml.Quoted
import LineShell.Config.Toml.Scalar
import LineShell.Config.Toml.Tree

/-!
# Config/Toml/Document — reading a document

A document is a list of statements, each on lines of its own: a header names the table that the
following statements fill, and a key is bound to a value. `document?` gives the table of a document
or nothing if it is malformed. Values nest, so their reader carries a bound; the length of the text
is always enough, since every level takes at least one character.
-/

namespace LineShell.Toml

/-- A reader gives a result and the rest of the text. -/
abbrev Reader (α : Type) := List Char → Option (α × List Char)

/-- The text without the white space at its start. -/
def skipSpace : List Char → List Char
  | [] => []
  | c :: rest => if c = ' ' ∨ c = '\t' then skipSpace rest else c :: rest

/-- The text without the white space, line feeds and comments at its start. -/
def skipLines : (inComment : Bool) → List Char → Option (List Char)
  | _, [] => some []
  | true, c :: rest =>
      if c = '\n' then skipLines false rest
      else if isControl c then none
      else skipLines true rest
  | false, c :: rest =>
      if isGap c then skipLines false rest
      else if c = '#' then skipLines true rest
      else some (c :: rest)

/-- The text after the end of a statement's line. -/
def endStatement (cs : List Char) : Option (List Char) :=
  match skipSpace cs with
  | [] => some []
  | '\n' :: rest => some rest
  | '#' :: rest => skipLines true rest
  | _ => none

/-! ## Keys -/

/-- The character may stand in a key without quotes. -/
def isBareKey (c : Char) : Bool := c.isAlphanum || c == '_' || c == '-'

/-- Reads one part of a key. -/
def keyPart : Reader String := fun cs =>
  match lineText? cs with
  | some (text, rest) => some (.ofList text, rest)
  | none =>
      let (bare, rest) := cs.span isBareKey
      if bare.isEmpty then none else some (.ofList bare, rest)

/-- Reads the parts of a key after its first one. -/
def keyTail : (bound : Nat) → Reader (List String)
  | 0, _ => none
  | bound + 1, cs =>
      match skipSpace cs with
      | '.' :: rest => do
          let (part, rest) ← keyPart (skipSpace rest)
          let (parts, rest) ← keyTail bound rest
          return (part :: parts, rest)
      | rest => some ([], rest)

/-- Reads a key: the parts that lead to it, and its last part. -/
def key : Reader (List String × String) := fun cs => do
  let (first, rest) ← keyPart (skipSpace cs)
  let (parts, rest) ← keyTail (cs.length + 1) rest
  let path := first :: parts
  return ((path.dropLast, path.getLast?.getD first), rest)

/-! ## Values -/

/-- Reads the elements of an array up to its closing bracket. -/
def elements (value : Reader Value) : (bound : Nat) → Reader (List Value)
  | 0, _ => none
  | bound + 1, cs => do
      match ← skipLines false cs with
      | ']' :: rest => return ([], rest)
      | cs =>
          let (v, rest) ← value cs
          match ← skipLines false rest with
          | ',' :: rest =>
              let (vs, rest) ← elements value bound rest
              return (v :: vs, rest)
          | ']' :: rest => return ([v], rest)
          | _ => none

/-- Reads a key bound to a value into a table under construction. -/
def binding (value : Reader Value) (nodes : Nodes) : Reader Nodes := fun cs => do
  let ((path, last), rest) ← key cs
  match skipSpace rest with
  | '=' :: rest =>
      let (v, rest) ← value (skipSpace rest)
      let nodes ← nodes.bind v path last
      return (nodes, rest)
  | _ => none

/-- Reads the fields of an inline table, of which there is at least one, up to its closing brace. -/
def fields (value : Reader Value) : (bound : Nat) → Nodes → Reader Nodes
  | 0, _, _ => none
  | bound + 1, nodes, cs => do
      let (nodes, rest) ← binding value nodes cs
      match skipSpace rest with
      | ',' :: rest => fields value bound nodes rest
      | '}' :: rest => return (nodes, rest)
      | _ => none

/-- Reads a value that nests less deeply than the bound. -/
def value : (bound : Nat) → Reader Value
  | 0, _ => none
  | bound + 1, cs =>
      match cs with
      | '"' :: _ => (text? cs).map fun (text, rest) => (.text (.ofList text), rest)
      | '\'' :: _ => (text? cs).map fun (text, rest) => (.text (.ofList text), rest)
      | '[' :: rest =>
          (elements (value bound) (rest.length + 1) rest).map fun (vs, rest) => (.array vs, rest)
      | '{' :: rest =>
          match skipSpace rest with
          | '}' :: rest => some (.table [], rest)
          | _ => (fields (value bound) (rest.length + 1) [] rest).map fun (nodes, rest) =>
              (.table (toTable nodes), rest)
      | _ =>
          let (run, rest) := cutRun cs
          (scalar? run).map (·, rest)

/-! ## Statements -/

/-- A document that is being read: what it holds, and the path that the last header names. -/
structure Draft where
  nodes : Nodes := []
  path : List String := []

namespace Draft

/-- Opens the table that a header names. -/
def openTable (d : Draft) (path : List String) (last : String) : Option Draft :=
  (Nodes.underHeader (Nodes.openTable last) path d.nodes).map (⟨·, path ++ [last]⟩)

/-- Opens one more table under a repeated header. -/
def openNext (d : Draft) (path : List String) (last : String) : Option Draft :=
  (Nodes.underHeader (Nodes.openNext last) path d.nodes).map (⟨·, path ++ [last]⟩)

/-- Binds a key in the open table. -/
def bind (d : Draft) (path : List String) (last : String) (v : Value) : Option Draft :=
  (Nodes.underHeader (Nodes.bind v path last) d.path d.nodes).map (⟨·, d.path⟩)

end Draft

/-- Reads one statement, which starts the text. -/
def statement (d : Draft) : Reader Draft := fun cs => do
  match cs with
  | '[' :: '[' :: rest =>
      let ((path, last), rest) ← key rest
      match skipSpace rest with
      | ']' :: ']' :: rest => return (← d.openNext path last, ← endStatement rest)
      | _ => none
  | '[' :: rest =>
      let ((path, last), rest) ← key rest
      match skipSpace rest with
      | ']' :: rest => return (← d.openTable path last, ← endStatement rest)
      | _ => none
  | _ =>
      let ((path, last), rest) ← key cs
      match skipSpace rest with
      | '=' :: rest =>
          let (v, rest) ← value rest.length (skipSpace rest)
          return (← d.bind path last v, ← endStatement rest)
      | _ => none

/-- Reads statements up to the end of the text. -/
def statements : (bound : Nat) → Draft → List Char → Option Draft
  | 0, _, _ => none
  | bound + 1, d, cs =>
      match skipLines false cs with
      | none => none
      | some [] => some d
      | some (c :: rest) => do
          let (d, rest) ← statement d (c :: rest)
          statements bound d rest

/-- The table of a document, if it is well formed. -/
def document? (cs : List Char) : Option Table :=
  (statements (cs.length + 1) {} cs).map fun d => toTable d.nodes

end LineShell.Toml
