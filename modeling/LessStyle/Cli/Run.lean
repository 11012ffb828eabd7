import LessStyle.Cli.Options
import LessStyle.Config.Reader
import LessStyle.Files.Walk
import LessStyle.Report

/-!
# The command line

One run of the program: read the arguments, find the configuration and the stylesheets, check them, and
write the report. The exit code is 0 if nothing was found, 1 if something was found or a file could not
be read, and 2 if the arguments or the configuration are wrong.
-/

namespace LessStyle.Cli

open Text

/-- What a run leaves behind. -/
structure Output where
  exitCode : Nat
  stdout : Text
  stderr : Text
  deriving DecidableEq, Repr

/-- The name and the version of the program. -/
def versionLine : Text := "lesslint 0.1.0\n".toList

/-- How the program is called. -/
def usage : Text :=
  ("Check LESS stylesheets against a style guide.\n\n" ++
    "Usage: lesslint [OPTIONS] [PATHS]...\n\n" ++
    "Arguments:\n" ++
    "  [PATHS]...  Files or directories to check [default: .]\n\n" ++
    "Options:\n" ++
    "      --config <FILE>    JSON rule configuration. Defaults to the nearest `.lesslintrc`\n" ++
    "      --format <FORMAT>  Report format [default: text] [possible values: text, json]\n" ++
    "      --no-color         Never colorize the text report\n" ++
    "  -h, --help             Print help\n" ++
    "  -V, --version          Print version\n").toList

/-! ## Reports -/

/-- A record as a line of the report. -/
def recordLine (d : Diagnostic) : Text :=
  "  line ".toList ++ decimal d.line ++
    (match d.column with
      | some c => ", col ".toList ++ decimal c
      | none => []) ++
    ": ".toList ++ d.display false ++ ['\n']

/-- The part of the report about one file. -/
def fileSection (r : FileReport) : Text :=
  r.path ++ '\n' :: r.sorted.flatMap recordLine ++ ['\n']

/-- The report as text: the files with something to report, then a line with totals. -/
def textReport (reports : List FileReport) : Text :=
  let dirty := reports.filter (!·.isClean)
  let problems := (dirty.flatMap FileReport.sorted).length
  dirty.flatMap fileSection ++
    if problems = 0 then
      decimal reports.length ++ " file(s) checked, no problems\n".toList
    else
      decimal problems ++ " problem(s) in ".toList ++ decimal dirty.length ++ " file(s)\n".toList

/-- The report on a file as a JSON object. -/
def fileJson (r : FileReport) : Json :=
  .object <|
    [("path".toList, .string r.path)] ++
      (r.fatal.map fun e => ("fatal".toList, e.toDiagnostic.toJson)).toList ++
      [("diagnostics".toList, .list (r.diagnostics.map Diagnostic.toJson))]

/-- The report as JSON. -/
def jsonReport (reports : List FileReport) : Text :=
  (Json.list (reports.map fileJson)).pretty 0 ++ ['\n']

/-- The report in a format. -/
def report : Format → List FileReport → Text
  | .text => textReport
  | .json => jsonReport

/-! ## A run -/

section

variable {m : Type → Type} [Monad m]

/-- The name of configuration files. -/
def configName : Text := ".lesslintrc".toList

/-- The configuration file of the nearest directory that has one. `names` leads to the directory to
look at first, in reverse. -/
def nearestConfig? (d : Disk m) (names : List Text) : m (Option Text) := do
  let path := Path.join (d.absolute names.reverse) configName
  match ← d.kind? path with
  | some .file => return some path
  | _ =>
    match names with
    | [] => return none
    | _ :: names => nearestConfig? d names

/-- The usual settings with those of a file written over them. -/
def configFrom (d : Disk m) (path : Text) : m (Except Text Config) := do
  let wrong (message : Text) : Except Text Config := .error (path ++ ": ".toList ++ message)
  match ← d.readText path with
  | .error e => return wrong e.message
  | .ok s =>
    match Config.ofJson s with
    | .error e => return wrong e.message
    | .ok user => return .ok (Config.default.merge user)

/-- The configuration of a run: from the file named in the arguments, else from the nearest one. -/
def configOf (d : Disk m) (o : Options) : m (Except Text Config) := do
  let path ←
    match o.config with
    | some path => pure (some path)
    | none => nearestConfig? d d.workingDirectory.reverse
  match path with
  | some path => configFrom d path
  | none => return .ok Config.default

/-- The texts of files, and a message for each that cannot be read. -/
def readAll (d : Disk m) : List Text → m (List (Text × Text) × Text)
  | [] => return ([], [])
  | path :: paths => do
    let result ← d.readText path
    let (files, messages) ← readAll d paths
    match result with
    | .ok s => return ((path, s) :: files, messages)
    | .error e => return (files, path ++ ": ".toList ++ e.message ++ '\n' :: messages)

/-- Check what the options name. -/
def checkAll (d : Disk m) (o : Options) : m Output := do
  match ← configOf d o with
  | .error message => return ⟨2, [], "Error: ".toList ++ message ++ ['\n']⟩
  | .ok config =>
    let (files, unreadable) ← readAll d (← d.searchAll o.roots)
    let reports := checkBatch config 1 files
    let clean := unreadable.isEmpty && reports.all (·.isClean)
    return ⟨if clean then 0 else 1, report (o.format.getD .text) reports, unreadable⟩

/-- One run of the program. -/
def run (d : Disk m) (args : List Text) : m Output :=
  match read args with
  | .wrong => return ⟨2, [], "error: invalid arguments; try '--help'\n".toList⟩
  | .version => return ⟨0, versionLine, []⟩
  | .help => return ⟨0, usage, []⟩
  | .run o => checkAll d o

end

end LessStyle.Cli
