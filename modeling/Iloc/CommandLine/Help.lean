import Iloc.Text.Lines

namespace Iloc.CommandLine

/-!
# Help and version

The two texts that the program tells about itself.
-/

/-- The answer to a request for help. -/
def helpText : String :=
  Text.unlines [
    "Scanner and parser front end for ILOC",
    "",
    "Usage: ilocfe [OPTIONS] <FILE>",
    "",
    "Arguments:",
    "  <FILE>  ILOC source file",
    "",
    "Options:",
    "  -s             Print the list of tokens the scanner finds",
    "  -p             Parse the file and report success or every error found",
    "  -r             Parse the file and print its intermediate representation",
    "      --plain    With -r, print one `opcode op1 op2 dest` line per record " ++
      "instead of a table",
    "  -h, --help     Print help",
    "  -V, --version  Print version"
  ]

/-- The answer to a request for the version. -/
def versionText : String :=
  Text.unlines ["ilocfe 0.1.0"]

end Iloc.CommandLine
