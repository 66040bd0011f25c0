import LineShell.Config.Template.Basic
import LineShell.Config.Toml.Document
import LineShell.Files.Basic
import LineShell.Files.Path
import LineShell.Text.Lines
import LineShell.Text.Utf8

/-!
# Config/Settings — the identity of a shell

The settings are read from a TOML file: the keys `name`, `user`, `host` and `prompt` at its top
level, or in its table `shell` if it has one. Every key must be one of the four and have a text;
the first that does not is reported. What the file leaves open keeps its default.
-/

namespace LineShell

/-- The name of the shell and the identity that its prompt shows. -/
structure Settings where
  name : String
  user : String
  host : String
  /-- The template of the prompt. -/
  prompt : String
  deriving DecidableEq, Repr

/-- What the settings and the programs see of the machine. -/
structure Machine where
  /-- The login name, if the system knows it. -/
  loginUser : Option String
  host : String
  /-- The files that paths on the command line name. -/
  read : Files.Reader
  /-- The name of the file with the user's own settings. -/
  userConfigPath : String
  /-- The content of that file, if it exists. -/
  userConfig : Option (List UInt8)

/-- The cause for which settings cannot be loaded. -/
inductive SettingsFault where
  /-- The file does not exist. -/
  | missing (path : String)
  /-- The file is malformed. -/
  | malformed (path : String)
  /-- The file has a key that names no setting. -/
  | unknownKey (key path : String)
  /-- The file gives a setting something other than a text. -/
  | notText (key : String)
  /-- The file is not UTF-8. -/
  | notUtf8 (fault : Text.Utf8.Fault)
  /-- The path cannot be looked up. -/
  | unreachable (path : String) (fault : Files.Fault)
  deriving DecidableEq, Repr

/-- The sentence that tells about the cause. -/
def SettingsFault.message : SettingsFault → String
  | missing path => s!"Config file '{path}' does not exist"
  | malformed path => s!"Cannot read config file '{path}'"
  | unknownKey key path => s!"Unknown config key '{key}' in '{path}'"
  | notText key => s!"Config key '{key}' must be a string"
  | notUtf8 fault => fault.message
  | unreachable path fault => fault.message path

namespace Settings

/-- The settings of a machine whose user has made none. -/
def default (m : Machine) : Settings where
  name := "termshell"
  user := m.loginUser.getD "guest"
  host := m.host
  prompt := "\x7buser\x7d@\x7bhost\x7d$ "

/-- The settings with the one that a key names changed, if it names one. -/
def update? (s : Settings) (key value : String) : Option Settings :=
  if key = "name" then some { s with name := value }
  else if key = "user" then some { s with user := value }
  else if key = "host" then some { s with host := value }
  else if key = "prompt" then some { s with prompt := value }
  else none

/-- The key names a setting. -/
def isKey (key : String) : Bool :=
  key == "name" || key == "user" || key == "host" || key == "prompt"

/-- Changes settings by the entries of a table, up to the first that is refused. -/
def apply (path : String) : Settings → Toml.Table → Except SettingsFault Settings
  | s, [] => .ok s
  | s, (key, value) :: rest =>
      match value with
      | .text text =>
          match s.update? key text with
          | some t => apply path t rest
          | none => .error (.unknownKey key path)
      | _ => .error (if isKey key then .notText key else .unknownKey key path)

/-- The table of a document that holds the settings. -/
def tableOf (document : Toml.Table) : Toml.Table := (document.table? "shell").getD document

/-- The settings that a document makes. -/
def ofDocument (m : Machine) (path : String) (document : Toml.Table) :
    Except SettingsFault Settings :=
  (default m).apply path (tableOf document)

/-- The settings that the content of a file makes. -/
def ofContent (m : Machine) (path : String) (bytes : List UInt8) : Except SettingsFault Settings :=
  match Text.Utf8.decode bytes with
  | .error fault => .error (.notUtf8 fault)
  | .ok cs =>
      match Toml.document? (Text.unifyBreaks cs) with
      | none => .error (.malformed path)
      | some document => ofDocument m path document

/-- Why settings cannot be loaded from a path that cannot be opened; what is not a file counts as
missing. -/
def faultOf (path : String) : Files.Fault → SettingsFault
  | .nameTooLong => .unreachable path .nameTooLong
  | .denied => .malformed path
  | _ => .missing path

/-- Loads the settings from a file, or the user's own if none is given. -/
def load (m : Machine) : Option String → Except SettingsFault Settings
  | none =>
      match m.userConfig with
      | none => .ok (default m)
      | some bytes => ofContent m m.userConfigPath bytes
  | some path =>
      let path := Files.normalPath path
      match m.read path with
      | .ok bytes => ofContent m path bytes
      | .error fault => .error (faultOf path fault)

/-- The prompt of a shell with these settings. -/
def formatPrompt (s : Settings) : Except Template.Fault String :=
  Template.fill [("user", s.user), ("host", s.host), ("name", s.name)] s.prompt

end Settings

end LineShell
