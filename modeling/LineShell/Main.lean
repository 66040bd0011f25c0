import LineShell.Cli.Run

/-!
# Main — the program

The outer layer: it reads the files that the command line names, hands everything to the library
and prints the answer. An interactive session is driven line by line, one step of the library each.
-/

namespace LineShell.Main

/-- Why a file could not be read. -/
def faultOf : IO.Error → Files.Fault
  | .noFileOrDirectory _ _ _ => .missing
  | .inappropriateType _ code _ =>
      if code = 21 ∨ code = 0 - 21 then .isDirectory else .notDirectory
  | .permissionDenied _ _ _ => .denied
  | .invalidArgument _ code _ => if code = 36 ∨ code = 0 - 36 then .nameTooLong else .missing
  | _ => .missing

/-- Reads a file. -/
def readFile (path : String) : IO (Except Files.Fault (List UInt8)) := do
  try return .ok (← IO.FS.readBinFile path).toList
  catch e => return .error (faultOf e)

/-- The first of some variables of the environment that is set and not empty. -/
def firstSet : List String → IO (Option String)
  | [] => return none
  | name :: rest => do
      match ← IO.getEnv name with
      | some value => if value = "" then firstSet rest else return some value
      | none => firstSet rest

/-- The name of the host. -/
def hostName : IO String := do
  match ← readFile "/etc/hostname" with
  | .ok bytes =>
      match Text.Utf8.decode bytes with
      | .ok cs => return .ofList (cs.takeWhile (!Text.isBlank ·))
      | .error _ => return "localhost"
  | .error _ => return "localhost"

/-- The name of the file with the user's own settings. -/
def userConfigPath : IO String := do
  let home ← firstSet ["HOME"]
  let directory ← firstSet ["XDG_CONFIG_HOME"]
  return directory.getD (home.getD "" ++ "/.config") ++ "/termshell/config.toml"

/-- What a request sees of the machine. -/
def machineFor (request : Option Cli.Request) : IO Machine := do
  let paths := (request.map Cli.Request.paths).getD []
  let contents ← paths.mapM fun path => return (path, ← readFile path)
  let configPath ← userConfigPath
  return {
    loginUser := ← firstSet ["LOGNAME", "USER", "LNAME", "USERNAME"]
    host := ← hostName
    read := fun path => (contents.lookup path).getD (.error .missing)
    userConfigPath := configPath
    userConfig := (← readFile configPath).toOption }

/-- Prints a transcript. -/
def print (t : Cli.Transcript) : IO Unit := do
  (← IO.getStdout).putStr t.stdout
  (← IO.getStdout).flush
  (← IO.getStderr).putStr t.stderr
  (← IO.getStderr).flush

/-- Prints how a run ends. -/
def finish (ending : Cli.Ending) : IO UInt32 := do
  print ending.transcript
  return UInt32.ofNat ending.code

/-- A line of input without its line feed. -/
def withoutBreak (line : String) : String :=
  if line.endsWith "\n" then .ofList line.toList.dropLast else line

/-- Prompts, runs a line and goes on, up to the end of the session or of the input. -/
partial def interact (prompt : String) (session : Session) : IO UInt32 := do
  if !session.isActive then return 0
  print (.out prompt)
  let line ← (← IO.getStdin).getLine
  if line = "" then finish (Cli.Repl.ending .endOfInput)
  else match Cli.Repl.step session (withoutBreak line) with
    | (shown, next, none) =>
        print shown
        interact prompt next
    | (shown, _, some failure) => finish ((Cli.Repl.broken failure).after shown)

/-- Answers a request. -/
def answer (machine : Machine) : Cli.Request → IO UInt32
  | .repl config =>
      match Cli.openRepl machine config with
      | .ok (prompt, session) => interact prompt session
      | .error ending => finish ending
  | request => finish (Cli.answer machine [] .endOfInput request)

end LineShell.Main

/-- Answers the command line. -/
def main (args : List String) : IO UInt32 := do
  match LineShell.Cli.Request.parse args with
  | .ok request =>
      let machine ← LineShell.Main.machineFor (some request)
      LineShell.Main.answer machine request
  | .error fault => LineShell.Main.finish ⟨2, .err fault.report⟩
