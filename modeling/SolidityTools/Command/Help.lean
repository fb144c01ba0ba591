import SolidityTools.Text.Padding

set_option autoImplicit false

/-! # Help

What the program says about itself when it is asked for help.
-/

namespace SolidityTools.Help

open Text

/-- A line of a list: a name, and what is said about it. -/
def listLine (width : Nat) (entry : String × String) : String :=
  "  " ++ padRight width entry.1 ++ "  " ++ entry.2 ++ "\n"

def commands : List (String × String) :=
  [("tokenize", "Print the token stream of a Solidity file"),
   ("highlight", "Print a Solidity file with syntax highlighting"),
   ("minimap", "Print a per-line density minimap of a Solidity file"),
   ("lint", "Report lint issues; exits with status 1 when any error is found"),
   ("gas", "Estimate gas per function"),
   ("fmt", "Normalize indentation and trailing whitespace"),
   ("imports", "Show imports and circular dependencies between files"),
   ("new", "Create a contract from a template"),
   ("templates", "List the built-in contract templates"),
   ("help", "Print this message")]

def options : List (String × String) :=
  [("    --config <CONFIG>",
      "Configuration file (default: ~/.solide.toml, created on first use)"),
   ("    --json", "Print machine-readable JSON instead of text"),
   ("-v, --verbose...", "Accepted for a log, of which there is none"),
   ("    --log-file", "Accepted for a log, of which there is none"),
   ("-h, --help", "Print help"),
   ("-V, --version", "Print version")]

def text : String :=
  "Solide - Static analysis for Solidity: highlighting, linting, gas estimation and formatting\n\n"
    ++ "Usage: solide [OPTIONS] <COMMAND>\n\n"
    ++ "Commands:\n" ++ String.join (commands.map (listLine 9)) ++ "\n"
    ++ "Options:\n" ++ String.join (options.map (listLine 21))

end SolidityTools.Help
