import LessStyle.Dict
import LessStyle.Files.Disk

/-!
# Snapshots of a file system

The files below one directory, as a tree, and a working directory among them. A path is followed piece by
piece from a `Place`; a piece that does not lead on says why. Of the directories above the top nothing is
known but that they are there.
-/

namespace LessStyle

/-- A file and its contents, or a directory and its entries. -/
inductive FileTree where
  | file (bytes : ByteArray)
  | directory (entries : List (Text × FileTree))

namespace FileTree

/-- The entries of a directory; a file has none. -/
def entries : FileTree → Dict FileTree
  | file _ => []
  | directory es => es

/-- What a tree is. -/
def kind : FileTree → EntryKind
  | file _ => .file
  | directory _ => .directory

/-- A tree in which `change` was made where the names lead to. Directories on the way are there. -/
def alter (change : Option FileTree → FileTree) : List Text → Option FileTree → FileTree
  | [], t => change t
  | n :: ns, t =>
    let es := (t.map entries).getD []
    .directory (es.insert n (alter change ns (es.get? n)))

/-- With a file of these bytes where the names lead to. -/
def write (t : FileTree) (names : List Text) (bytes : ByteArray) : FileTree :=
  alter (fun _ => .file bytes) names (some t)

/-- With a directory where the names lead to, unless something is there. -/
def makeDirectory (t : FileTree) (names : List Text) : FileTree :=
  alter (·.getD (.directory [])) names (some t)

end FileTree

/-- Where a path has led to. -/
inductive Place where
  /-- A directory above the top. -/
  | above
  /-- The tree `here`, with the names and the directories that lead to it, the nearest first. -/
  | below (trail : List (Text × FileTree)) (here : FileTree)

namespace Place

/-- The number of bytes that a name may have. -/
def nameLimit : Nat := 255

/-- What a place holds. -/
def kind : Place → EntryKind
  | above => .directory
  | below _ t => t.kind

/-- The names of the entries of a place. -/
def names : Place → List Text
  | above => []
  | below _ t => t.entries.map Prod.fst

/-- The names that lead from the top to a place below it. -/
def route? : Place → Option (List Text)
  | above => none
  | below trail _ => some (trail.map Prod.fst).reverse

/-- The directory that holds a place. -/
def up : Place → Place
  | below ((_, t) :: trail) _ => below trail t
  | _ => above

/-- The entry of a place under a name. -/
def down? (name : Text) : Place → Option Place
  | above => none
  | below trail t => (t.entries.get? name).map (below ((name, t) :: trail))

/-- Follow one piece of a path. -/
def step (p : Place) (piece : Text) : Except ReadFault Place :=
  if p.kind = .file then .error .notDirectory
  else if piece.isEmpty || piece == ['.'] then .ok p
  else if piece == ['.', '.'] then .ok p.up
  else if piece.byteLength > nameLimit then .error .tooLong
  else
    match p.down? piece with
    | some q => .ok q
    | none => .error .missing

/-- Follow the pieces of a path. -/
def follow (p : Place) : List Text → Except ReadFault Place
  | [] => .ok p
  | piece :: pieces =>
    match p.step piece with
    | .ok q => follow q pieces
    | .error e => .error e

end Place

/-- Files below a directory, and a working directory there. -/
structure Snapshot where
  /-- The absolute path of the directory. -/
  top : Text
  tree : FileTree
  /-- The names that lead to the working directory. -/
  workingDirectory : List Text

namespace Snapshot

/-- The number of bytes that a path may not reach. -/
def pathLimit : Nat := 4096

/-- The snapshot of files, given by the names that lead to them. -/
def ofFiles (top : Text) (files : List (List Text × ByteArray)) (workingDirectory : List Text) :
    Snapshot :=
  let tree : FileTree := files.foldl (fun t (names, bytes) => t.write names bytes) (.directory [])
  ⟨top, tree.makeDirectory workingDirectory, workingDirectory⟩

/-- Where a path leads to. -/
def resolve (s : Snapshot) (path : Text) : Except ReadFault Place :=
  let top := Place.below [] s.tree
  if path.byteLength ≥ pathLimit then .error .tooLong
  else if path.startsWith (s.top ++ ['/']) then top.follow (Path.pieces (path.drop s.top.length))
  else if path.startsWith ['/'] then Place.above.follow (Path.pieces path)
  else top.follow (s.workingDirectory ++ Path.pieces path)

/-- The contents of the file at a path. -/
def read (s : Snapshot) (path : Text) : Except ReadFault ByteArray :=
  match s.resolve path with
  | .ok (.below _ (.file bytes)) => .ok bytes
  | .ok _ => .error .isDirectory
  | .error e => .error e

/-- The disk that a snapshot shows. -/
def disk (s : Snapshot) : Disk Id where
  workingDirectory := s.workingDirectory
  absolute names := s.top ++ names.flatMap ('/' :: ·)
  kind? path := (s.resolve path).toOption.map Place.kind
  names path := ((s.resolve path).toOption.map Place.names).getD []
  read path := s.read path
  locate? path := (s.resolve path).toOption.bind Place.route?

end Snapshot

end LessStyle
