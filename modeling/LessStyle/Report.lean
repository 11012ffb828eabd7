import LessStyle.Rule.Registry

/-!
# Checking files

The check of a text: normalize, read, run the rules, and drop records that repeat an earlier one. A
batch of files is divided into shares of equal size, at most one for each job; the reports come back
in the order of the files.
-/

namespace LessStyle

/-- The records about a text under a configuration, or why it cannot be read. -/
def check (config : Config) (source : Text) : Except SyntaxError (List Diagnostic) :=
  match File.read source.normalize with
  | .error e => .error e
  | .ok file => .ok (Diagnostic.dedup (Rule.runAll config file))

/-- The record of a file that cannot be read. -/
def SyntaxError.toDiagnostic (e : SyntaxError) : Diagnostic :=
  ⟨"parse-error".toList, e.position.line, some e.position.column, e.fault.message, none, none⟩

/-- What was found in a file. -/
structure FileReport where
  path : Text
  diagnostics : List Diagnostic
  /-- Why the file cannot be read; it then has no other records. -/
  fatal : Option SyntaxError
  deriving DecidableEq, Repr

namespace FileReport

/-- The report on one file. -/
def of (config : Config) (path source : Text) : FileReport :=
  match check config source with
  | .ok ds => ⟨path, ds, none⟩
  | .error e => ⟨path, [], some e⟩

/-- Nothing to report. -/
def isClean (r : FileReport) : Bool := r.diagnostics.isEmpty && r.fatal.isNone

/-- The order of records: by line, then by column; a record without a column stands first. -/
def inOrder (a b : Diagnostic) : Bool :=
  a.line < b.line || (a.line = b.line && a.column.getD 0 ≤ b.column.getD 0)

/-- All records in the order of their places; records of one place keep their order. -/
def sorted (r : FileReport) : List Diagnostic :=
  ((r.fatal.map SyntaxError.toDiagnostic).toList ++ r.diagnostics).mergeSort inOrder

end FileReport

/-- Consecutive shares of `size` items, the last one perhaps smaller. A size of zero counts as one. -/
def shares {α : Type} (size : Nat) (xs : List α) : List (List α) :=
  match xs with
  | [] => []
  | x :: xs => (x :: xs.take (size - 1)) :: shares size (xs.drop (size - 1))
termination_by xs.length
decreasing_by simp only [List.length_drop, List.length_cons]; omega

/-- The size of a share of `n` files for a number of jobs, rounded up. -/
def shareSize (n jobs : Nat) : Nat := (n + (max jobs 1 - 1)) / max jobs 1

/-- The reports on files, each a path and a text, with the work divided among jobs. -/
def checkBatch (config : Config) (jobs : Nat) (files : List (Text × Text)) : List FileReport :=
  (shares (shareSize files.length jobs) files).flatMap fun share =>
    share.map fun (path, source) => FileReport.of config path source

end LessStyle
