/-!
# Cli/Usage — the texts of the command line

The usage lines stand in front of the complaint about a command line that cannot be read; the usage
text is the answer to a call for help.
-/

namespace LineShell.Cli

/-- The name under which the program is called. -/
def program : String := "termshell"

/-- The version of the program. -/
def version : String := "1.0"

/-- The names of the commands, in the order in which a complaint lists them. -/
def commandNames : List String := ["tokenize", "run", "repl", "help", "version"]

/-- The answer to a call for help. -/
def usageText : String :=
  "Usage: termshell [-h | --help] <command> [<args>]

Commands:
  tokenize                 Split a command line into tokens and print them as JSON
      --trace              Print the scanner state after every character
      <line>               The command line to split

  run                      Execute a file of command lines
      -c, --config FILE    Shell configuration file (default: per-user config.toml)
      <script>             The script file

  repl                     Start an interactive shell session
      -c, --config FILE    Shell configuration file (default: per-user config.toml)

  help                     Show this help message
  version                  Show program version

"

end LineShell.Cli
