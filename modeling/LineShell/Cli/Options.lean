import LineShell.Cli.Usage
import LineShell.Text.Decimal
import LineShell.Text.Literal

/-!
# Cli/Options — the words of a command line

Each part of a command line has a grammar: the options it knows and whether a plain word may follow.
A word that starts with a dash is an option unless it is a single dash, looks like a negative number
or holds a space. Long options may be cut short and take a value after `=`; short options may be
chained in one word. After the word `--` every word is plain.
-/

namespace LineShell.Cli

/-- The options of the program. -/
inductive Opt where
  | help
  | config
  | trace
  deriving DecidableEq, Repr

namespace Opt

/-- The spellings of an option. -/
def names : Opt → List String
  | help => ["-h", "--help"]
  | config => ["-c", "--config"]
  | trace => ["--trace"]

/-- The option needs a value. -/
def takesValue : Opt → Bool
  | config => true
  | _ => false

/-- The option as a complaint names it. -/
def shown (o : Opt) : String := "/".intercalate o.names

end Opt

/-- What a part of a command line may hold. -/
structure Grammar where
  /-- The words of the call that lead to this part. -/
  call : String
  /-- The usage line. -/
  usage : String
  options : List Opt
  /-- A plain word may be given. -/
  hasWord : Bool

namespace Grammar

/-- The spellings of the options, each with its option. -/
def spellings (g : Grammar) : List (String × Opt) :=
  g.options.flatMap fun o => o.names.map (·, o)

/-- The option with exactly this spelling. -/
def option? (g : Grammar) (s : String) : Option Opt := g.spellings.lookup s

end Grammar

/-- The cause for which a part of a command line cannot be read. -/
inductive Complaint where
  /-- A word could be cut short from several options. -/
  | ambiguous (word : String) (spellings : List String)
  /-- An option without values is given one. -/
  | ignoredValue (o : Opt) (value : String)
  /-- An option lacks its value. -/
  | missingValue (o : Opt)
  /-- A word names no command. -/
  | unknownCommand (word : String)
  /-- Words are left over. -/
  | leftOver (words : List String)
  deriving DecidableEq, Repr

/-- The sentence that tells about the cause. -/
def Complaint.message : Complaint → String
  | ambiguous word spellings =>
      s!"ambiguous option: {word} could match " ++ ", ".intercalate spellings
  | ignoredValue o value =>
      s!"argument {o.shown}: ignored explicit argument " ++ Text.literal value
  | missingValue o => s!"argument {o.shown}: expected one argument"
  | unknownCommand word =>
      "argument command: invalid choice: " ++ Text.literal word ++ " (choose from " ++
        ", ".intercalate (commandNames.map Text.literal) ++ ")"
  | leftOver words => "unrecognized arguments: " ++ " ".intercalate words

/-! ## Kinds of words -/

/-- What a word is. -/
inductive Word where
  | plain (written : String)
  /-- The word `--`, after which every word is plain. -/
  | separator
  /-- An option that is written with a spelling, short or long, and maybe a value. -/
  | opt (written : String) (o : Opt) (short : Bool) (value : Option String)
  | unknown (written : String)
  deriving DecidableEq, Repr

namespace Word

/-- The word as it is written. -/
def written : Word → String
  | plain s => s
  | separator => "--"
  | opt s _ _ _ => s
  | unknown s => s

end Word

/-- The text starts with two dashes. -/
def isLong : List Char → Bool
  | '-' :: '-' :: _ => true
  | _ => false

/-- A point with at least one digit after it is left. -/
def isFraction : List Char → Bool
  | '.' :: rest => !rest.isEmpty && rest.all Text.isDecimal
  | _ => false

/-- The text is a negative number; a line feed may end it. -/
def isNegativeNumber (cs : List Char) : Bool :=
  let body := if cs.getLast? = some '\n' then cs.dropLast else cs
  match body with
  | '-' :: rest =>
      let after := rest.dropWhile Text.isDecimal
      (!rest.isEmpty && after.isEmpty) || isFraction after
  | _ => false

/-- Splits a text at its first `=`, if it has one. -/
def splitEquals (cs : List Char) : List Char × Option (List Char) :=
  match cs.span (· != '=') with
  | (front, _ :: value) => (front, some value)
  | (front, []) => (front, none)

/-- The options that a word can be read as, with their values. -/
def Grammar.readings (g : Grammar) (cs : List Char) :
    List (String × Opt × Bool × Option String) :=
  if isLong cs then
    let (front, value) := splitEquals cs
    (g.spellings.filter fun (s, _) => front.isPrefixOf s.toList).map fun (s, o) =>
      (s, o, false, value.map String.ofList)
  else
    (g.spellings.filter fun (s, _) => s.toList = cs.take 2).map fun (s, o) =>
      (s, o, true, some (.ofList (cs.drop 2)))

/-- Tells what a word is. -/
def Grammar.classify (g : Grammar) (s : String) : Except Complaint Word :=
  let cs := s.toList
  if cs.head? ≠ some '-' then .ok (.plain s)
  else match g.option? s with
    | some o => .ok (.opt s o (!isLong cs) none)
    | none =>
        if cs.length = 1 then .ok (.plain s)
        else
          let (front, value) := splitEquals cs
          match value, g.option? (.ofList front) with
          | some v, some o => .ok (.opt s o (!isLong cs) (some (.ofList v)))
          | _, _ =>
              match g.readings cs with
              | [(_, o, short, value)] => .ok (.opt s o short value)
              | [] =>
                  if isNegativeNumber cs || cs.contains ' ' then .ok (.plain s)
                  else .ok (.unknown s)
              | several => .error (.ambiguous s (several.map (·.1)))

/-- Tells what each word is. -/
def Grammar.words (g : Grammar) : List String → Except Complaint (List Word)
  | [] => .ok []
  | s :: rest =>
      if s = "--" then .ok (.separator :: rest.map .plain)
      else do
        let word ← g.classify s
        return word :: (← g.words rest)

/-! ## Reading a part -/

/-- An option that was given, with its value if it takes one. -/
structure Given where
  opt : Opt
  value : Option String := none
  deriving DecidableEq, Repr

/-- Reads the value that is attached to an option: the options that are given by it, and the last
of a chain if its value must still come. -/
def Grammar.attached (g : Grammar) : (o : Opt) → (short : Bool) → (value : List Char) →
    Except Complaint (List Given × Option Opt)
  | o, _, [] =>
      if o.takesValue then .ok ([⟨o, some ""⟩], none)
      else .error (.ignoredValue o "")
  | o, short, c :: rest =>
      if o.takesValue then .ok ([⟨o, some (.ofList (c :: rest))⟩], none)
      else if short then
        match g.option? (.ofList ['-', c]) with
        | none => .error (.ignoredValue o (.ofList (c :: rest)))
        | some next =>
            if rest = [] then
              if next.takesValue then .ok ([⟨o, none⟩], some next)
              else .ok ([⟨o, none⟩, ⟨next, none⟩], none)
            else do
              let (given, waiting) ← g.attached next true rest
              return (⟨o, none⟩ :: given, waiting)
      else .error (.ignoredValue o (.ofList (c :: rest)))

/-- Reads the value of an option from the words that follow it. -/
def takeValue (o : Opt) : List Word → Except Complaint (Given × List Word)
  | .plain s :: rest => .ok (⟨o, some s⟩, rest)
  | _ => .error (.missingValue o)

/-- Reads an option and the value that follows it, if it needs one. -/
def Grammar.takeOption (g : Grammar) (o : Opt) (short : Bool) (value : Option String)
    (rest : List Word) : Except Complaint (List Given × List Word) := do
  let (given, waiting) ← match value with
    | some v => g.attached o short v.toList
    | none => .ok (if o.takesValue then ([], some o) else ([⟨o, none⟩], none))
  match waiting with
  | none => return (given, rest)
  | some o =>
      let (last, rest) ← takeValue o rest
      return (given ++ [last], rest)

/-- What a part of a command line holds. -/
structure Part where
  given : List Given := []
  word : Option String := none
  /-- The words that have no place in the part. -/
  extras : List String := []
  deriving DecidableEq, Repr

namespace Part

/-- The option is given. -/
def has (p : Part) (o : Opt) : Bool := p.given.any (·.opt == o)

/-- The value of an option; the last one counts. -/
def value? (p : Part) (o : Opt) : Option String :=
  (p.given.filterMap fun g => if g.opt = o then g.value else none).getLast?

end Part

/-- The words after a `--` that directly follows the plain word, if one does. -/
def dropSeparator : List Word → List Word
  | .separator :: rest => rest
  | words => words

theorem length_dropSeparator (words : List Word) :
    (dropSeparator words).length ≤ words.length := by
  unfold dropSeparator
  split <;> simp

/-- Reads a part; `free` says that the plain word may still come. -/
def Grammar.readPart (g : Grammar) : (bound : Nat) → (free : Bool) → List Word →
    Except Complaint Part
  | 0, _, _ => .ok {}
  | _ + 1, _, [] => .ok {}
  | bound + 1, free, .plain s :: rest =>
      if free then do
        let part ← g.readPart bound false (dropSeparator rest)
        return { part with word := some s }
      else do
        let part ← g.readPart bound false rest
        return { part with extras := s :: part.extras }
  | bound + 1, free, .separator :: rest =>
      if free then g.readPart bound true rest
      else do
        let part ← g.readPart bound false rest
        return { part with extras := "--" :: part.extras }
  | bound + 1, free, .unknown s :: rest => do
      let part ← g.readPart bound free rest
      return { part with extras := s :: part.extras }
  | bound + 1, free, .opt _ o short value :: rest => do
      let (given, rest) ← g.takeOption o short value rest
      let part ← g.readPart bound free rest
      return { part with given := given ++ part.given }

/-- Reads the words of a part. -/
def Grammar.read (g : Grammar) (args : List String) : Except Complaint Part := do
  let words ← g.words args
  g.readPart (words.length + 1) g.hasWord words

end LineShell.Cli
