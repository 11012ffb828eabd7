import LessStyle.Files.Glob
import LessStyle.Text.Blank

/-!
# Ignore files

An ignore file lists patterns, one a line, for paths below its directory. The last line that matches
decides: it ignores the path, or with `!` in front it keeps it. A pattern with a slash other than at its
end is matched against the whole path, any other against every name; a slash at the end restricts it to
directories. A malformed pattern is left out; a pattern that nests too deeply makes the whole file count
for nothing.
-/

namespace LessStyle

/-- What an ignore file says about a path. -/
inductive Verdict where
  | silent
  | ignored
  | kept
  deriving DecidableEq, Repr

/-- The first of two verdicts that says something. -/
def Verdict.or (a b : Verdict) : Verdict :=
  match a with
  | .silent => b
  | a => a

/-- A line of an ignore file. -/
structure IgnoreLine where
  glob : Glob
  keeps : Bool
  onlyDirectories : Bool
  deriving Repr

namespace IgnoreLine

/-- The text of a line without white space at its end, unless a backslash keeps the last space. -/
def trimmed (s : Text) : Text := if s.endsWith ['\\', ' '] then s else s.trimEnd

/-- The pattern of a line, without its marks: it holds if it is `keeping`, and `anchored` if it began
with a slash. -/
structure Marks where
  pattern : Text
  keeping : Bool
  anchored : Bool
  deriving DecidableEq, Repr

/-- The marks in front of a pattern. A backslash takes away the meaning of `!` and `#`. -/
def marks (s : Text) : Marks :=
  match s with
  | '\\' :: '!' :: r => ⟨'!' :: r, false, false⟩
  | '\\' :: '#' :: r => ⟨'#' :: r, false, false⟩
  | '!' :: '/' :: r => ⟨r, true, true⟩
  | '!' :: r => ⟨r, true, false⟩
  | '/' :: r => ⟨r, false, true⟩
  | s => ⟨s, false, false⟩

/-- The pattern without a slash at its end, and without the backslash before that. -/
def withoutSlash (s : Text) : Text × Bool :=
  if s.getLast? = some '/' then
    let s := s.dropLast
    (if s.getLast? = some '\\' then s.dropLast else s, true)
  else (s, false)

/-- The pattern for whole paths: a pattern for names may stand below any directories, and one that ends
in `/**` matches only what is below. -/
def forPaths (anchored : Bool) (s : Text) : Text :=
  let s :=
    if anchored || s.contains '/' || s == ['*', '*'] then s else ['*', '*', '/'] ++ s
  if s.endsWith ['/', '*', '*'] then s ++ ['/', '*'] else s

/-- The line of a text. A comment, an empty line and a malformed pattern are none. -/
def parse? (s : Text) : Option IgnoreLine :=
  if s.startsWith ['#'] then none
  else
    let s := trimmed s
    if s.isEmpty then none
    else
      let m := marks s
      let (pattern, onlyDirectories) := withoutSlash m.pattern
      (Glob.parse? (forPaths m.anchored pattern)).map (⟨·, m.keeping, onlyDirectories⟩)

/-- The line applies to a path. -/
def applies (l : IgnoreLine) (path : Text) (isDirectory : Bool) : Bool :=
  (!l.onlyDirectories || isDirectory) && l.glob.accepts path

end IgnoreLine

/-- An ignore file. -/
structure IgnoreFile where
  lines : List IgnoreLine
  deriving Repr

namespace IgnoreFile

/-- An ignore file that says nothing. -/
def empty : IgnoreFile := ⟨[]⟩

/-- The lines of bytes, without line breaks. A carriage return before a line feed is part of the
break. -/
def byteLines : List UInt8 → List (List UInt8)
  | [] => [[]]
  | 0x0d :: 0x0a :: s => [] :: byteLines s
  | b :: s =>
    if b == 0x0a then [] :: byteLines s
    else
      match byteLines s with
      | [] => [[b]]
      | l :: ls => (b :: l) :: ls

/-- The text of a line, if its bytes are UTF-8. -/
def decode? (bytes : List UInt8) : Option Text :=
  (String.fromUTF8? ⟨bytes.toArray⟩).map String.toList

/-- The texts of lines up to the first that is not UTF-8. -/
def decodeAll : List (List UInt8) → List Text
  | [] => []
  | l :: ls =>
    match decode? l with
    | some s => s :: decodeAll ls
    | none => []

/-- The file with these lines, empty if a pattern nests too deeply. -/
def ofLines (lines : List IgnoreLine) : IgnoreFile :=
  if lines.all fun l => l.glob.nesting ≤ Glob.nestingLimit then ⟨lines⟩ else .empty

/-- The ignore file with these bytes. A byte-order mark in front is dropped, and lines from the first
that is not UTF-8 on are not read. -/
def ofBytes (bytes : ByteArray) : IgnoreFile :=
  let texts :=
    match decodeAll (byteLines bytes.toList) with
    | s :: ss => s.dropWhile (· == '\uFEFF') :: ss
    | [] => []
  ofLines (texts.filterMap IgnoreLine.parse?)

/-- The first line of a file, if there is one and its bytes are UTF-8. -/
def firstLine? (bytes : ByteArray) : Option Text :=
  if bytes.isEmpty then none else (byteLines bytes.toList).head?.bind decode?

/-- What the file says about a path below its directory: the last line that applies decides. -/
def verdict (f : IgnoreFile) (path : Text) (isDirectory : Bool) : Verdict :=
  match f.lines.reverse.find? fun l => l.applies path isDirectory with
  | some l => if l.keeps then .kept else .ignored
  | none => .silent

end IgnoreFile

end LessStyle
