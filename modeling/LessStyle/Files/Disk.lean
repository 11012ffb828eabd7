import LessStyle.Files.Path

/-!
# Disks

What the command line needs of a file system, in any monad. A `Snapshot` answers from a tree of files
without effects; the program itself answers from the real file system.
-/

namespace LessStyle

/-- Why a file cannot be read. -/
inductive ReadFault where
  | missing
  | notDirectory
  | isDirectory
  | denied
  | tooLong
  | notUtf8
  | other (text : Text)
  deriving DecidableEq, Repr

/-- The wording of a fault. -/
def ReadFault.message : ReadFault → Text
  | missing => "No such file or directory (os error 2)".toList
  | notDirectory => "Not a directory (os error 20)".toList
  | isDirectory => "Is a directory (os error 21)".toList
  | denied => "Permission denied (os error 13)".toList
  | tooLong => "File name too long (os error 36)".toList
  | notUtf8 => "stream did not contain valid UTF-8".toList
  | other text => text

/-- What a path leads to. -/
inductive EntryKind where
  | file
  | directory
  deriving DecidableEq, Repr

/-- A file system. Paths are absolute or relative to the working directory. -/
structure Disk (m : Type → Type) where
  /-- The names that lead from the top to the working directory. -/
  workingDirectory : List Text
  /-- The absolute path of a directory given by such names, without a slash at its end. -/
  absolute : List Text → Text
  /-- What a path leads to, if anything. -/
  kind? : Text → m (Option EntryKind)
  /-- The names in a directory. -/
  names : Text → m (List Text)
  /-- The contents of a file. -/
  read : Text → m (Except ReadFault ByteArray)
  /-- The names that lead from the top to a directory, with every `.` and `..` followed. -/
  locate? : Text → m (Option (List Text))

namespace Disk

variable {m : Type → Type} [Monad m]

/-- The text of a file. -/
def readText (d : Disk m) (path : Text) : m (Except ReadFault Text) := do
  match ← d.read path with
  | .error e => return .error e
  | .ok bytes =>
    match String.fromUTF8? bytes with
    | some s => return .ok s.toList
    | none => return .error .notUtf8

end Disk

end LessStyle
