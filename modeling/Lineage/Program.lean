import Lineage.CommandLine
import Lineage.Comparison
import Lineage.Disk
import Lineage.JavaScript.Outline

/-!
The program as a function of its arguments, its environment and the file system. Before a command
runs, the directory for log files is made, and after that the settings are read.
-/

namespace Lineage

/-- Compares the snapshots below two paths; both are loaded before the settings are checked. -/
def compareDirectories (grammar : JavaScript.Grammar) (disk : Disk) (config : Config)
    (before after : Path) : Except Error Report := do
  let beforeFiles ← disk.load before JavaScript.extensions
  let afterFiles ← disk.load after JavaScript.extensions
  compareSnapshots config (JavaScript.snapshot grammar beforeFiles)
    (JavaScript.snapshot grammar afterFiles)

namespace Program

/-- What a run leaves behind. -/
structure Outcome where
  exitCode : Nat
  output : String := ""
  /-- The line that tells of a failure. -/
  errorLine : Option String := none
  disk : Disk

/-- The parts of the environment that matter. -/
structure Environment where
  logDir : Option String := none
  home : Option String := none

def versionText : String :=
  "refdiff 0.1.0\n"

def helpText : String :=
  "Refactoring-aware diff of two JavaScript snapshots\n\n" ++
  "Usage: refdiff [OPTIONS] diff BEFORE AFTER [--format table|json] [--all] [--threshold F]" ++
  " [--config FILE]\n" ++
  "       refdiff [OPTIONS] tree PATH\n\n" ++
  "Options: -v, --verbose; --log-dir DIR; -V, --version; -h, --help\n"

/-- The text that a command prints. -/
def runCommand (grammar : JavaScript.Grammar) (disk : Disk) :
    CommandLine.Command → Except Error String
  | .diff before after options => do
    let config ← Config.resolve (options.config.map disk.read) options.threshold
    let report ← compareDirectories grammar disk config before after
    let report := if options.all then report else report.onlyChanges
    return report.render (options.format.getD .table) ++ "\n"
  | .tree path => do
    let files ← disk.load path JavaScript.extensions
    let tree := JavaScript.outline grammar files
    return tree.render ++ "\n" ++ tree.summary ++ "\n"

/-- The directory for log files. -/
def logDirOf (environment : Environment) (shared : CommandLine.Shared) : Path :=
  shared.logDir.getD (logDirectory environment.logDir environment.home)

def failure (disk : Disk) (error : Error) : Outcome where
  exitCode := 1
  errorLine := some ("Error: " ++ error.message)
  disk := disk

/-- Runs the program. -/
def run (grammar : JavaScript.Grammar) (environment : Environment) (disk : Disk)
    (args : List String) : Outcome :=
  match CommandLine.parse args with
  | .misuse => { exitCode := 2, disk }
  | .version => { exitCode := 0, output := versionText, disk }
  | .help => { exitCode := 0, output := helpText, disk }
  | .run shared command =>
    match disk.makeDirectories (logDirOf environment shared) with
    | (disk, some fault) => failure disk (.access fault)
    | (disk, none) =>
      match runCommand grammar disk command with
      | .error error => failure disk error
      | .ok output => { exitCode := 0, output, disk }

end Program

end Lineage
