import LessStyle.Text.Basic

/-!
# Globs

The patterns of ignore files. `*` stands for any run without a slash, `?` for one byte other than a
slash, `[...]` for one byte of a class, `{a,b}` for either of two patterns, and `**` between slashes for
any number of directories. A backslash takes away the meaning of the next character.

A pattern is matched against the bytes of a whole path. Its pieces are taken one after the other, and
what is kept is a mark for every place of the path: a match of the pieces so far can end there. A piece
carries two facts along the path, so the work is the number of pieces times the length of the path,
whatever the pattern.

A choice can hold further choices. `Glob.nesting` measures how deeply, and beyond `Glob.nestingLimit` a
pattern is too deep to be used.
-/

namespace LessStyle

namespace Glob

/-- A part of a pattern. -/
inductive Piece where
  | byte (b : UInt8)
  /-- One byte other than a slash. -/
  | any
  /-- Any number of bytes other than slashes. -/
  | star
  /-- Any directories in front: a leading `**` with its slash. -/
  | leadingDirs
  /-- A slash and anything: `/**` at the end. -/
  | anythingBelow
  /-- A slash, and any directories with theirs: `/**/`. -/
  | innerDirs
  /-- One byte in the ranges, or outside them if negated. -/
  | byteIn (negated : Bool) (ranges : List (UInt8 × UInt8))
  /-- One of the branches. -/
  | choice (branches : List (List Piece))
  deriving Repr

/-! ## Nesting -/

/-- How many items stand side by side, and how deeply the deepest of them nests. -/
structure Extent where
  count : Nat
  depth : Nat
  deriving DecidableEq, Repr

namespace Extent

/-- Nothing. -/
def empty : Extent := ⟨0, 0⟩

/-- Two extents side by side. -/
def append (a b : Extent) : Extent := ⟨a.count + b.count, max a.depth b.depth⟩

/-- The depth of the whole: several items side by side are one level. -/
def nested (e : Extent) : Nat := if 1 < e.count then e.depth + 1 else e.depth

end Extent

mutual

/-- The extent of a piece. A class and a repetition are a level each, a class of several ranges is two,
and a choice is one around its branches. A choice without a branch that holds something is nothing. -/
def Piece.extent : Piece → Extent
  | .byte _ => ⟨1, 0⟩
  | .any => ⟨1, 1⟩
  | .star => ⟨1, 2⟩
  | .leadingDirs => ⟨1, 4⟩
  | .anythingBelow => ⟨2, 1⟩
  | .innerDirs => ⟨1, 4⟩
  | .byteIn _ ranges => ⟨1, if 1 < ranges.length then 2 else 1⟩
  | .choice branches =>
    let e := extentOfAny branches
    if e.count = 0 then .empty else ⟨1, e.nested + 1⟩

/-- The extent of consecutive pieces. -/
def extentOfAll : List Piece → Extent
  | [] => .empty
  | p :: ps => p.extent.append (extentOfAll ps)

/-- The extent of branches, each an item; a branch that holds nothing is none. -/
def extentOfAny : List (List Piece) → Extent
  | [] => .empty
  | b :: bs =>
    let e := extentOfAll b
    if e.count = 0 then extentOfAny bs else (Extent.mk 1 e.nested).append (extentOfAny bs)

end

/-! ## Matching -/

/-- The byte of a slash. -/
def slash : UInt8 := 0x2f

/-- What a piece knows at a place of the path. -/
structure Carry where
  /-- The piece has begun. -/
  begun : Bool
  /-- The piece can end here. -/
  ends : Bool
  deriving DecidableEq, Repr

/-- Before the path. -/
def Carry.start : Carry := ⟨false, false⟩

/-- A piece that also matches nothing. -/
def Piece.isOptional : Piece → Bool
  | .star => true
  | .leadingDirs => true
  | _ => false

/-- What a piece knows behind the byte `b`, where `mark` says that it can begin in front of `b`. -/
def Piece.pass (p : Piece) (c : Carry) (mark : Bool) (b : UInt8) : Carry :=
  match p with
  | .byte a => ⟨false, mark && b == a⟩
  | .any => ⟨false, mark && b != slash⟩
  | .byteIn negated ranges =>
    ⟨false, mark && (ranges.any fun (lo, hi) => lo ≤ b && b ≤ hi) != negated⟩
  | .star => ⟨false, (c.ends || mark) && b != slash⟩
  | .leadingDirs => ⟨c.begun || mark, (c.begun || mark) && b == slash⟩
  | .anythingBelow =>
    let begun := c.begun || (mark && b == slash)
    ⟨begun, begun⟩
  | .innerDirs =>
    let begun := c.begun || (mark && b == slash)
    ⟨begun, begun && b == slash⟩
  | .choice _ => .start

/-- The marks behind a piece that is no choice, where `marks` are those in front of it. -/
def Piece.sweep (p : Piece) (c : Carry) (path : List UInt8) : List Bool → List Bool
  | [] => []
  | mark :: marks =>
    (c.ends || (p.isOptional && mark)) ::
      match path with
      | b :: path => p.sweep (p.pass c mark b) path marks
      | [] => []

mutual

/-- The marks behind a piece. -/
def Piece.advance (path : List UInt8) : Piece → List Bool → List Bool
  | .choice branches, marks =>
    if (extentOfAny branches).count = 0 then marks else advanceAny path branches marks
  | p, marks => p.sweep .start path marks

/-- The marks behind consecutive pieces. -/
def advanceAll (path : List UInt8) : List Piece → List Bool → List Bool
  | [], marks => marks
  | p :: ps, marks => advanceAll path ps (p.advance path marks)

/-- The marks behind any of the branches that hold something. -/
def advanceAny (path : List UInt8) : List (List Piece) → List Bool → List Bool
  | [], marks => marks.map fun _ => false
  | b :: bs, marks =>
    if (extentOfAll b).count = 0 then advanceAny path bs marks
    else List.zipWith (· || ·) (advanceAll path b marks) (advanceAny path bs marks)

end

end Glob

/-- A pattern. -/
structure Glob where
  pieces : List Glob.Piece
  deriving Repr

namespace Glob

/-- The pattern matches the path. A lone `**` matches everything. -/
def accepts (g : Glob) (path : Text) : Bool :=
  match g.pieces with
  | [.leadingDirs] => true
  | pieces =>
    let path := path.utf8
    (advanceAll path pieces (true :: path.map fun _ => false)).getLast? = some true

/-- How deeply a pattern nests. The whole is one level. -/
def nesting (g : Glob) : Nat := (extentOfAll g.pieces).depth + 1

/-- The deepest nesting of a pattern that can be used. -/
def nestingLimit : Nat := 250

/-! ## Reading -/

/-- A range of characters as ranges of bytes. The range runs from the last byte of its first character
to the first byte of its last one; their other bytes stand alone. -/
def byteRanges (lo hi : Char) : List (UInt8 × UInt8) :=
  let low := String.utf8EncodeChar lo
  let high := String.utf8EncodeChar hi
  let single (b : UInt8) : UInt8 × UInt8 := (b, b)
  if lo = hi then low.map single
  else
    low.dropLast.map single ++ [(low.getLastD 0, high.headD 0)] ++ (high.drop 1).map single

/-- The result of reading a class. -/
inductive ClassResult where
  /-- The ranges, the latest first, and the number of characters read. -/
  | closed (ranges : List (Char × Char)) (width : Nat)
  /-- No bracket closes the class. -/
  | unclosed
  /-- A range that ends before it starts. -/
  | invalid
  deriving DecidableEq, Repr

/-- Read a class after its opening bracket and its negation. A closing bracket in front stands for
itself, and so does a dash at either end. `inRange` says that the last character was the dash of a
range; `width` characters have been read. -/
def classFrom (ranges : List (Char × Char)) (first inRange : Bool) (width : Nat) : Text → ClassResult
  | [] => .unclosed
  | c :: s =>
    if c == ']' && !first then
      .closed (if inRange then ('-', '-') :: ranges else ranges) (width + 1)
    else if c == '-' && !first && !inRange then classFrom ranges false true (width + 1) s
    else
      match inRange, ranges with
      | true, (lo, _) :: rest =>
        if c < lo then .invalid else classFrom ((lo, c) :: rest) false false (width + 1) s
      | _, _ => classFrom ((c, c) :: ranges) false false (width + 1) s

/-- An open choice: its finished branches and the pieces before it, the latest first. -/
structure Group where
  branches : List (List Piece)
  outer : List Piece
  deriving Repr

/-- A pattern that is being read. -/
structure Draft where
  /-- The pieces of the current branch, the latest first. -/
  current : List Piece
  groups : List Group
  /-- The last character. -/
  previous : Option Char
  /-- An opening bracket was found that nothing closes; later ones are then not looked at. -/
  literalBrackets : Bool
  deriving Repr

namespace Draft

/-- Nothing read. -/
def start : Draft := ⟨[], [], none, false⟩

/-- With one more piece, after the character `c`. -/
def push (d : Draft) (p : Piece) (c : Char) : Draft :=
  { d with current := p :: d.current, previous := some c }

/-- With the character `c`, which stands for itself. -/
def pushLiteral (d : Draft) (c : Char) : Draft :=
  { d with
    current := (String.utf8EncodeChar c).foldl (fun ps b => .byte b :: ps) d.current
    previous := some c }

/-- Two stars that stand for no more than one. -/
def pushStars (d : Draft) : Draft :=
  { d with current := .star :: .star :: d.current, previous := some '*' }

/-- Two stars before the character `next`, and whether a slash behind them belongs to them. They stand
for directories where they fill the place between slashes. -/
def doubleStar (d : Draft) (next : Option Char) : Draft × Bool :=
  match d.current with
  | [] =>
    if next = none ∨ next = some '/' then
      (d.push .leadingDirs (if next = none then '*' else '/'), next = some '/')
    else (d.pushStars, false)
  | last :: before =>
    let startsBranch := !d.groups.isEmpty && (d.previous = some ',' || d.previous = some '{')
    let replace (p : Piece) : List Piece :=
      match last with
      | .leadingDirs => last :: before
      | .anythingBelow => last :: before
      | _ => p :: before
    if d.previous ≠ some '/' ∧ !startsBranch then (d.pushStars, false)
    else if next = none ∨ (!d.groups.isEmpty ∧ (next = some ',' ∨ next = some '}')) then
      ({ d with current := replace .anythingBelow, previous := some '*' }, false)
    else if next = some '/' then
      ({ d with current := replace .innerDirs, previous := some '/' }, true)
    else (d.pushStars, false)

/-- The comma `,`: inside a choice it begins the next branch. -/
def comma (d : Draft) : Draft :=
  match d.groups with
  | [] => d.pushLiteral ','
  | g :: gs =>
    { d with
      current := []
      groups := { g with branches := d.current.reverse :: g.branches } :: gs
      previous := some ',' }

/-- The brace that opens a choice. -/
def openGroup (d : Draft) : Draft :=
  { d with current := [], groups := ⟨[], d.current⟩ :: d.groups, previous := some '{' }

/-- The brace that closes a choice, if one is open. -/
def closeGroup (d : Draft) : Option Draft :=
  match d.groups with
  | [] => none
  | g :: gs =>
    some { d with
      current := .choice (d.current.reverse :: g.branches).reverse :: g.outer
      groups := gs
      previous := some '}' }

/-- Read the rest of a pattern. -/
def read (d : Draft) (s : Text) : Option Draft :=
  match s with
  | [] => some d
  | c :: s =>
    match c with
    | '?' => read (d.push .any c) s
    | '*' =>
      match s with
      | '*' :: s =>
        let (d, slash) := d.doubleStar s.head?
        if slash then read d (s.drop 1) else read d s
      | s => read (d.push .star c) s
    | '[' =>
      if d.literalBrackets then read (d.pushLiteral c) s
      else
        let negated := s.head? = some '!' ∨ s.head? = some '^'
        let skip := if negated then 1 else 0
        match classFrom [] true false skip (s.drop skip) with
        | .closed ranges width =>
          read (d.push (.byteIn negated (ranges.flatMap fun (lo, hi) => byteRanges lo hi)) ']')
            (s.drop width)
        | .unclosed => read { d.pushLiteral c with literalBrackets := true } s
        | .invalid => none
    | '{' => read d.openGroup s
    | '}' =>
      match d.closeGroup with
      | some d => read d s
      | none => none
    | ',' => read d.comma s
    | '\\' =>
      match s with
      | c :: s => read (d.pushLiteral c) s
      | [] => none
    | c => read (d.pushLiteral c) s
termination_by s.length
decreasing_by all_goals simp only [List.length_drop, List.length_cons]; omega

end Draft

/-- The pattern of a text, if it is well formed. -/
def parse? (s : Text) : Option Glob :=
  match Draft.start.read s with
  | some d => if d.groups.isEmpty then some ⟨d.current.reverse⟩ else none
  | none => none

end Glob

end LessStyle
