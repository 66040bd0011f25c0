import LineShell.Cli.Options
import LineShell.Files.Path

/-!
# Cli/Request — what a command line asks for

The options in front of the command belong to the program, the words after it to the command. The
command reads its words first, so its complaints win over words that are left over in front of it.
-/

namespace LineShell.Cli

/-- What a command line asks for. -/
inductive Request where
  | help
  | version
  | tokenize (trace : Bool) (line : Option String)
  | run (config script : Option String)
  | repl (config : Option String)
  deriving DecidableEq, Repr

/-- The paths of the files that a request reads, apart from the user's own settings. -/
def Request.paths : Request → List String
  | .run config script => config.toList.map Files.normalPath ++ script.toList
  | .repl config => config.toList.map Files.normalPath
  | _ => []

/-- Why a command line cannot be read: a complaint and the part that it is about. -/
structure UsageFault where
  grammar : Grammar
  complaint : Complaint

/-- What is printed about a command line that cannot be read. -/
def UsageFault.report (f : UsageFault) : String :=
  f.grammar.usage ++ "\n" ++ f.grammar.call ++ ": error: " ++ f.complaint.message ++ "\n"

/-- What may stand in front of the command. -/
def top : Grammar where
  call := program
  usage := "usage: termshell [-h] \x7btokenize,run,repl,help,version\x7d ..."
  options := [.help]
  hasWord := false

/-- What may follow the command `tokenize`. -/
def tokenizeGrammar : Grammar where
  call := "termshell tokenize"
  usage := "usage: termshell tokenize [-h] [--trace] [line]"
  options := [.help, .trace]
  hasWord := true

/-- What may follow the command `run`. -/
def runGrammar : Grammar where
  call := "termshell run"
  usage := "usage: termshell run [-h] [-c CONFIG] [script]"
  options := [.help, .config]
  hasWord := true

/-- What may follow the command `repl`. -/
def replGrammar : Grammar where
  call := "termshell repl"
  usage := "usage: termshell repl [-h] [-c CONFIG]"
  options := [.help, .config]
  hasWord := false

/-- What may follow a command that takes nothing. -/
def bareGrammar : Grammar where
  call := program
  usage := ""
  options := []
  hasWord := false

/-- What stands in front of the command, and the command with its words. -/
structure Front where
  /-- Help is asked for. -/
  help : Bool := false
  /-- The words that have no place in front of the command. -/
  extras : List String := []
  command : Option (String × List String) := none

/-- Reads the words in front of the command. -/
def readFront : (bound : Nat) → List Word → Except Complaint Front
  | 0, _ => .ok {}
  | _ + 1, [] => .ok {}
  | _ + 1, .plain s :: rest => .ok { command := some (s, rest.map Word.written) }
  | _ + 1, [.separator] => .ok { extras := ["--"] }
  | _ + 1, .separator :: _ => .error (.unknownCommand "--")
  | bound + 1, .unknown s :: rest => do
      let front ← readFront bound rest
      return { front with extras := s :: front.extras }
  | bound + 1, .opt _ o short value :: rest => do
      let (given, rest) ← top.takeOption o short value rest
      let front ← readFront bound rest
      return { front with help := front.help || given.any (·.opt == .help) }

/-- Reads the words of a command; the result is ready unless words are left over. -/
def readCommand (help : Bool) (name : String) (args : List String) :
    Except UsageFault (Request × List String) :=
  let reading (g : Grammar) (make : Part → Request) : Except UsageFault (Request × List String) :=
    match g.read args with
    | .ok part => .ok (if part.has .help then .help else make part, part.extras)
    | .error complaint => .error ⟨g, complaint⟩
  match name with
  | "tokenize" => reading tokenizeGrammar fun part => .tokenize (part.has .trace) part.word
  | "run" => reading runGrammar fun part => .run (part.value? .config) part.word
  | "repl" => reading replGrammar fun part => .repl (part.value? .config)
  | "help" => reading bareGrammar fun _ => .help
  | "version" => reading bareGrammar fun _ => if help then .help else .version
  | _ => .error ⟨top, .unknownCommand name⟩

/-- Reads a command line. -/
def Request.parse (args : List String) : Except UsageFault Request :=
  let blame {α : Type} (r : Except Complaint α) : Except UsageFault α :=
    match r with
    | .ok a => .ok a
    | .error complaint => .error ⟨top, complaint⟩
  do
    let words ← blame (top.words args)
    let front ← blame (readFront (words.length + 1) words)
    let (request, extras) ← match front.command with
      | some (name, args) => readCommand front.help name args
      | none => .ok (.help, [])
    let leftOver := front.extras ++ extras
    if leftOver.isEmpty then return request else .error ⟨top, .leftOver leftOver⟩

end LineShell.Cli
