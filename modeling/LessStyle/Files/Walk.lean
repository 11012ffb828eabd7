import LessStyle.Files.Disk
import LessStyle.Files.Ignore

/-!
# Finding stylesheets

The stylesheets below the paths of a command line. A file that is named is taken as it is. A directory is
searched: hidden entries, some well-known directories and what ignore files exclude are left out, and of
the rest files with the ending `.less` are taken.

Every directory can hold ignore files. The one of this program is asked first, in all directories from
the nearest to the top, and then the one that tools share. Inside a repository its own ignore files are
asked last, from the nearest directory to that of the repository.

A pattern is matched against the text of a path from which the text of the directory of the ignore file
is cut off. A path is written as the command line began it, and paths are not simplified: where the text
of the directory does not stand at the start of the text of the path, nothing is cut off. Directories
above the one that is named on the command line are given by absolute paths, and so is then the entry.
-/

namespace LessStyle

/-- The name of this program's ignore files. -/
def ownIgnoreName : Text := ".lesslintignore".toList

/-- The name of ignore files that all tools share. -/
def sharedIgnoreName : Text := ".ignore".toList

/-- Directories that are never searched. -/
def skippedDirectories : List Text :=
  ["output", "test", "node_modules", "asset", "dist", "release", "doc", "dep", "report"].map
    String.toList

/-- The ignore files of a repository. -/
def repositoryIgnoreName : Text := ".gitignore".toList

/-- The name of a repository inside its directory: a directory, or a file that says where it is. -/
def repositoryName : Text := ".git".toList

/-- What marks the directory of a repository. -/
def repositoryMarks : List Text := [repositoryName, ".jj".toList]

/-- The file with further patterns inside a repository. -/
def repositoryExcludeName : Text := "info/exclude".toList

/-- The file that says where the shared part of a repository is. -/
def sharedPartName : Text := "commondir".toList

/-- What a file in the place of a repository begins with. -/
def repositoryPointer : Text := "gitdir: ".toList

/-- The ignore files of a directory. -/
structure IgnoreLayer where
  /-- The path of the directory. -/
  directory : Text
  own : IgnoreFile
  shared : IgnoreFile
  repository : IgnoreFile
  exclude : IgnoreFile
  /-- The directory is that of a repository. -/
  isRepository : Bool

namespace IgnoreLayer

/-- The directory has no ignore files and is not that of a repository, so nothing depends on it. -/
def isVoid (l : IgnoreLayer) : Bool :=
  [l.own, l.shared, l.repository, l.exclude].all (·.lines.isEmpty) && !l.isRepository

/-- The text of a path that the patterns of a layer are matched against. -/
def relative (l : IgnoreLayer) (path : Text) : Text :=
  let directory := Path.withoutHere l.directory
  let path := Path.withoutHere path
  if Path.isHere directory || !path.contains '/' || !path.startsWith directory then path
  else Path.without ['/'] (Path.without directory path)

/-- The verdict of one of the ignore files of a layer. -/
def ask (file : IgnoreLayer → IgnoreFile) (l : IgnoreLayer) (path : Text) (isDirectory : Bool) :
    Verdict :=
  (file l).verdict (l.relative path) isDirectory

end IgnoreLayer

/-- The layers that an entry is judged by. Void ones are left out. -/
structure Scope where
  /-- The path on the command line that led here. -/
  root : Text
  /-- The absolute path of the root. -/
  base : Text
  /-- The layers of the directories from the searched one up to the root, the nearest first. -/
  inner : List IgnoreLayer
  /-- The layers of the directories above the root, the nearest first. -/
  outer : List IgnoreLayer

namespace Scope

/-- The absolute path of an entry. A root that leads to where it starts is not cut off. -/
def absolute (s : Scope) (path : Text) : Text :=
  Path.join s.base <|
    if Path.isHere s.root then path
    else Path.without ['/'] (Path.without (Path.withoutHere s.root) path)

/-- Each layer with the path of an entry as it is asked about it, the nearest first. -/
def questions (s : Scope) (path : Text) : List (IgnoreLayer × Text) :=
  let path := Path.withoutHere path
  s.inner.map (·, path) ++ s.outer.map (·, s.absolute path)

/-- The verdict of the nearest ignore file, chosen by `file`, that has one. -/
def nearest (file : IgnoreLayer → IgnoreFile) (isDirectory : Bool)
    (questions : List (IgnoreLayer × Text)) : Verdict :=
  questions.foldr (fun (l, path) v => (l.ask file path isDirectory).or v) .silent

/-- The questions inside the repository that the searched directory is in: up to the first layer that is
one, none if there is none. -/
def ofRepository : List (IgnoreLayer × Text) → List (IgnoreLayer × Text)
  | [] => []
  | q :: qs =>
    if q.1.isRepository then [q]
    else if qs.any (·.1.isRepository) then q :: ofRepository qs
    else []

/-- The verdict on an entry of the searched directory. -/
def verdict (s : Scope) (path : Text) (isDirectory : Bool) : Verdict :=
  let all := s.questions path
  let inside := ofRepository all
  (nearest IgnoreLayer.own isDirectory all).or <|
    (nearest IgnoreLayer.shared isDirectory all).or <|
      (nearest IgnoreLayer.repository isDirectory inside).or <|
        nearest IgnoreLayer.exclude isDirectory inside

/-- An entry is left out: it is ignored, or hidden and not kept, or a directory never searched. -/
def leavesOut (s : Scope) (path name : Text) (isDirectory : Bool) : Bool :=
  (match s.verdict path isDirectory with
    | .ignored => true
    | .kept => false
    | .silent => name.startsWith ['.']) ||
  (isDirectory && skippedDirectories.contains name)

/-- Inside a directory of the searched one. -/
def enter (s : Scope) (l : IgnoreLayer) : Scope :=
  if l.isVoid then s else { s with inner := l :: s.inner }

end Scope

/-- The entry is a stylesheet by its name. -/
def isStylesheetName (name : Text) : Bool := Path.ending? name == some "less".toList

namespace Disk

variable {m : Type → Type} [Monad m]

/-- An ignore file, empty if it cannot be read. -/
def ignoreFile (d : Disk m) (path : Text) : m IgnoreFile := do
  match ← d.read path with
  | .ok bytes => return .ofBytes bytes
  | .error _ => return .empty

/-- The first line of a file. -/
def firstLine? (d : Disk m) (path : Text) : m (Option Text) := do
  match ← d.read path with
  | .ok bytes => return IgnoreFile.firstLine? bytes
  | .error _ => return none

/-- The shared part of the repository that a file points to. It can be given relative to the repository,
with a dot in front. -/
def sharedPart? (d : Disk m) (pointer : Text) : m (Option Text) := do
  match ← d.firstLine? pointer with
  | none => return none
  | some line =>
    if !line.startsWith repositoryPointer then return none
    else
      let repository := Path.without repositoryPointer line
      let shared ← d.firstLine? (Path.join repository sharedPartName)
      return shared.map fun s => if s.startsWith ['.'] then Path.join repository s else s

/-- The further patterns of the repository in a directory. -/
def excludeFile (d : Disk m) (directory : Text) : m IgnoreFile := do
  let repository := Path.join directory repositoryName
  let part ←
    match ← d.kind? repository with
    | some .file => d.sharedPart? repository
    | _ => pure (some repository)
  match part with
  | some part => d.ignoreFile (Path.join part repositoryExcludeName)
  | none => return .empty

/-- A directory is that of a repository. -/
def isRepository (d : Disk m) (directory : Text) : m Bool :=
  repositoryMarks.anyM fun mark => do return (← d.kind? (Path.join directory mark)).isSome

/-- The ignore files of a directory. -/
def layerOf (d : Disk m) (directory : Text) : m IgnoreLayer := do
  let own ← d.ignoreFile (Path.join directory ownIgnoreName)
  let shared ← d.ignoreFile (Path.join directory sharedIgnoreName)
  let repository ← d.ignoreFile (Path.join directory repositoryIgnoreName)
  let exclude ← d.excludeFile directory
  return ⟨directory, own, shared, repository, exclude, ← d.isRepository directory⟩

/-- The layers of the directories above the one that `names` lead to, the nearest first; `names` are in
reverse. -/
def layersAbove (d : Disk m) : List Text → m (List IgnoreLayer)
  | [] => return []
  | _ :: above => do
    let layer ← d.layerOf (d.absolute above.reverse)
    let layers ← layersAbove d above
    return if layer.isVoid then layers else layer :: layers

/-- The greatest number of directories below one another that is searched; no path is that long. -/
def depthLimit : Nat := 4096

/-- The stylesheets below a directory, whose layer is in the scope. -/
def searchIn (d : Disk m) (fuel : Nat) (scope : Scope) (directory : Text) : m (List Text) :=
  match fuel with
  | 0 => return []
  | fuel + 1 => do
    let names ← d.names directory
    let found ← names.mapM fun name => do
      let path := Path.join directory name
      match ← d.kind? path with
      | none => return []
      | some .file =>
        return if !scope.leavesOut path name false && isStylesheetName name then [path] else []
      | some .directory =>
        if scope.leavesOut path name true then return []
        else d.searchIn fuel (scope.enter (← d.layerOf path)) path
    return found.flatten

/-- The scope of a search that begins at a directory. -/
def scopeOf (d : Disk m) (root : Text) : m Scope := do
  let layer ← d.layerOf root
  let scope : Scope ←
    match ← d.locate? root with
    | some names => pure ⟨root, d.absolute names, [], ← d.layersAbove names.reverse⟩
    | none => pure ⟨root, [], [], []⟩
  return scope.enter layer

/-- The stylesheets of one path of the command line. A path that leads nowhere has none, and neither has
`-`, which stands for the standard input. -/
def search (d : Disk m) (path : Text) : m (List Text) := do
  if Path.components path = [.name ['-']] then return []
  match ← d.kind? path with
  | none => return []
  | some .file => return [path]
  | some .directory => d.searchIn depthLimit (← d.scopeOf path) path

/-- The stylesheets of all paths, in order and without repetitions. -/
def searchAll (d : Disk m) (paths : List Text) : m (List Text) := do
  let found ← paths.mapM d.search
  return Path.sortDistinct found.flatten

end Disk

end LessStyle
