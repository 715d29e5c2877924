/-
Help: the description of the options, and the version.
-/

set_option autoImplicit false

namespace Unimported

/-- The name of the program. -/
def programName : String := "unusedfiles"

/-- The version of the program. -/
def programVersion : String := "0.1.0"

/-- The line with the version. -/
def versionText : String := programName ++ " " ++ programVersion ++ "\n"

namespace Help

/-- What the program does. -/
def about : String :=
  "A fast CLI tool to find JavaScript/TypeScript files whose exports are never imported"

/-- The names of the options, each with what it does. -/
def options : List (String × String) := [
  ("-c, --config <CONFIG>", "Path to configuration file"),
  ("-t, --target <TARGET>",
    "Directories to scan, relative to PATH (can be specified multiple times)"),
  ("-e, --exclude <EXCLUDE>", "Patterns to exclude (can be specified multiple times)"),
  ("    --ext <EXT>", "File extensions to scan (can be specified multiple times)"),
  ("    --respect-gitignore", "Skip files ignored by .gitignore and .ignore files"),
  ("-f, --format <FORMAT>", "Output format [possible values: terminal, json]"),
  ("-o, --output <OUTPUT>", "Output file (for json format)"),
  ("    --batch-size <N>", "Files read together while detecting exports"),
  ("    --parallel", "Check files for references across worker threads"),
  ("    --show-used", "Also list files that are in use"),
  ("    --no-progress", "Hide progress spinners"),
  ("-v, --verbose", "Verbose output"),
  ("-q, --quiet", "Quiet mode - only output results"),
  ("-h, --help", "Print help"),
  ("-V, --version", "Print version")]

/-- The width of the column of names. -/
def nameWidth : Nat := options.foldr (fun option width => max option.1.length width) 0

/-- The line about an option. -/
def optionLine (option : String × String) : String :=
  "  " ++ option.1 ++ String.ofList (List.replicate (nameWidth - option.1.length + 2) ' ')
    ++ option.2 ++ "\n"

/-- The description of the options. -/
def text : String :=
  about ++ "\n\nUsage: " ++ programName ++ " [OPTIONS] [PATH]\n\nArguments:\n"
    ++ "  [PATH]  Path to the project directory to analyze [default: .]\n\nOptions:\n"
    ++ String.join (options.map optionLine)

end Help

end Unimported
