import LessStyle.Text.Basic

/-!
# Paths

Paths as texts with slashes. They are compared component by component, so a doubled slash or a `.` inside
makes no difference.
-/

namespace LessStyle.Path

/-- The texts between slashes. -/
def pieces : Text → List Text
  | [] => [[]]
  | c :: s =>
    if c == '/' then [] :: pieces s
    else
      match pieces s with
      | [] => [[c]]
      | p :: ps => (c :: p) :: ps

/-- A component of a path, in the order in which components of different kinds are sorted. -/
inductive Component where
  | root
  | here
  | up
  | name (text : Text)
  deriving DecidableEq, Repr

/-- The components of a path. A `.` counts only in front. -/
def components (path : Text) : List Component :=
  let inner := (pieces path).filter fun p => !p.isEmpty && p != ['.']
  let named := inner.map fun p => if p == ['.', '.'] then .up else .name p
  match pieces path with
  | [] :: _ :: _ => .root :: named
  | ['.'] :: _ => .here :: named
  | _ => named

/-- The rank of the kind of a component. -/
def Component.rank : Component → Nat
  | root => 0
  | here => 1
  | up => 2
  | name _ => 3

/-- Strictly before. -/
def Component.before (a b : Component) : Bool :=
  match a, b with
  | name s, name t => s.before t
  | a, b => a.rank < b.rank

/-- Not after, component by component. -/
def notAfter : List Component → List Component → Bool
  | [], _ => true
  | _ :: _, [] => false
  | a :: as, b :: bs => if a = b then notAfter as bs else a.before b

/-- A path seen from a directory: an absolute path stays as it is. -/
def join (directory path : Text) : Text :=
  if path.startsWith ['/'] || directory.isEmpty then path
  else if directory.endsWith ['/'] then directory ++ path
  else directory ++ '/' :: path

/-- A path that leads to where it starts, such as `.` or `./.`. -/
def isHere (path : Text) : Bool := components path = [.here]

/-- The text of a path without the text `front` at its start, if it starts so. -/
def without (front path : Text) : Text := if path.startsWith front then path.drop front.length else path

/-- The path without one `./` in front. -/
def withoutHere (path : Text) : Text := without ['.', '/'] path

/-- The ending of a file name after its last dot. A dot in front begins no ending. -/
def ending? (name : Text) : Option Text :=
  if name == ['.', '.'] then none
  else
    let tail := (name.reverse.takeWhile (· != '.')).reverse
    if name.length ≤ tail.length + 1 then none else some tail

/-- The paths in order, one of each. Of equal paths the first stays. -/
def sortDistinct (paths : List Text) : List Text :=
  let keyed := paths.map fun p => (components p, p)
  let sorted := keyed.mergeSort fun a b => notAfter a.1 b.1
  let rec distinct (last : Option (List Component)) : List (List Component × Text) → List Text
    | [] => []
    | (k, p) :: rest => if last = some k then distinct last rest else p :: distinct (some k) rest
  distinct none sorted

end LessStyle.Path
