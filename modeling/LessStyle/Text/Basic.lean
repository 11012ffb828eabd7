/-!
# Texts

A text is the list of its characters. Columns count characters; offsets into a value or a line count
the bytes of the UTF-8 form, so `byteLength` measures a text and `splitBytes?` cuts it at an offset,
if the offset is in range and does not fall inside a character.

Scanners of this library return a *width*, the number of characters that belong to a piece. The piece
is then `take width` and the remainder `drop width`, so no scanner can lose or invent text.
-/

namespace LessStyle

/-- A text, as the list of its characters. -/
abbrev Text := List Char

namespace Text

/-! ## Bytes -/

/-- The bytes of the UTF-8 form of a text. -/
def utf8 (s : Text) : List UInt8 := s.flatMap String.utf8EncodeChar

/-- The number of bytes of the UTF-8 form. -/
def byteLength : Text → Nat
  | [] => 0
  | c :: s => c.utf8Size + byteLength s

/-- The two sides of the byte offset `n`, if it is the offset of a character or the end. -/
def splitBytes? : Nat → Text → Option (Text × Text)
  | 0, s => some ([], s)
  | _ + 1, [] => none
  | n + 1, c :: s =>
    if c.utf8Size ≤ n + 1 then
      (splitBytes? (n + 1 - c.utf8Size) s).map fun (a, b) => (c :: a, b)
    else none

/-- The text from byte `a` to byte `b`, if both are offsets of characters and in order. -/
def sliceBytes? (a b : Nat) (s : Text) : Option Text :=
  match splitBytes? b s with
  | some (front, _) => (splitBytes? a front).map Prod.snd
  | none => none

@[simp] theorem byteLength_nil : byteLength [] = 0 := rfl

@[simp] theorem byteLength_cons (c : Char) (s : Text) :
    byteLength (c :: s) = c.utf8Size + byteLength s := rfl

@[simp] theorem byteLength_append (s t : Text) :
    byteLength (s ++ t) = byteLength s + byteLength t := by
  induction s with
  | nil => simp
  | cons c s ih => simp [ih, Nat.add_assoc]

/-- Cutting at an offset loses nothing, and the first side has that many bytes. -/
theorem splitBytes?_eq_some {n : Nat} {s a b : Text} (h : splitBytes? n s = some (a, b)) :
    a ++ b = s ∧ byteLength a = n := by
  induction s generalizing n a b with
  | nil => cases n <;> simp_all [splitBytes?]
  | cons c s ih =>
    cases n with
    | zero => simp_all [splitBytes?]
    | succ n =>
      rw [splitBytes?] at h
      split at h
      · obtain ⟨⟨a', b'⟩, h', he⟩ := Option.map_eq_some_iff.1 h
        obtain ⟨rfl, rfl⟩ := Prod.mk.inj he
        obtain ⟨h₁, h₂⟩ := ih h'
        exact ⟨by simp [h₁], by simp only [byteLength_cons]; omega⟩
      · simp at h

/-! ## Searching -/

/-- The number of characters before the first suffix that satisfies `stop`, all of them if none
does. -/
def widthUntil (stop : Text → Bool) : Text → Nat
  | [] => 0
  | c :: s => if stop (c :: s) then 0 else widthUntil stop s + 1

/-- Where `needle` first occurs, counted in characters. -/
def find? (needle : Text) : Text → Option Nat
  | [] => if needle.isEmpty then some 0 else none
  | c :: s => if needle.isPrefixOf (c :: s) then some 0 else (find? needle s).map (· + 1)

/-- The width up to and including the first `c`. -/
def through? (c : Char) (s : Text) : Option Nat :=
  (s.findIdx? (· == c)).map (· + 1)

/-- The width up to and including the first `q` that no backslash escapes. A backslash escapes the
character after it; `escaped` says that the text starts with an escaped character. -/
def closing? (q : Char) (escaped : Bool) : Text → Option Nat
  | [] => none
  | c :: s =>
    if escaped then (closing? q false s).map (· + 1)
    else if c == '\\' then (closing? q true s).map (· + 1)
    else if c == q then some 1
    else (closing? q false s).map (· + 1)

/-- The text before and after the first `c`. -/
def cutAt? (c : Char) (s : Text) : Option (Text × Text) :=
  if s.contains c then
    some (s.takeWhile (· != c), (s.dropWhile (· != c)).drop 1)
  else none

/-- Every occurrence of `needle` replaced by `new`. Occurrences are found from left to right and do not
overlap; the needle is not empty. -/
def replace (needle new s : Text) : Text :=
  match s with
  | [] => []
  | c :: s =>
    if needle.isPrefixOf (c :: s) then new ++ replace needle new (s.drop (needle.length - 1))
    else c :: replace needle new s
termination_by s.length
decreasing_by all_goals simp only [List.length_drop, List.length_cons]; omega

/-! ## Trimming -/

/-- Without the longest end whose characters satisfy `p`. -/
def dropEndWhile (p : Char → Bool) (s : Text) : Text :=
  (s.reverse.dropWhile p).reverse

/-- Starts with `head`. -/
def startsWith (s head : Text) : Bool := head.isPrefixOf s

/-- Ends with `tail`. -/
def endsWith (s tail : Text) : Bool := tail.isSuffixOf s

/-! ## Lines -/

/-- The pieces between line breaks, at least one. -/
def lines : Text → List Text
  | [] => [[]]
  | c :: s =>
    if c == '\n' then [] :: lines s
    else
      match lines s with
      | [] => [[c]]
      | l :: ls => (c :: l) :: ls

/-- The line with number `n`, counted from one. -/
def line? (s : Text) (n : Nat) : Option Text :=
  if n = 0 then none else (lines s)[n - 1]?

/-- Without one byte-order mark in front. -/
def withoutMark : Text → Text
  | [] => []
  | c :: s => if c == '\uFEFF' then s else c :: s

/-- A text as it is checked: without one byte-order mark in front, and with `\n` for every line
break. -/
def normalize (s : Text) : Text :=
  let s := withoutMark s
  if s.contains '\r' then replace ['\r'] ['\n'] (replace ['\r', '\n'] ['\n'] s) else s

/-! ## Order and case -/

/-- Strictly before, character by character in the order of their code points. This is also the
order of the UTF-8 forms as byte strings. -/
def before : Text → Text → Bool
  | _, [] => false
  | [], _ :: _ => true
  | a :: s, b :: t => if a == b then before s t else a < b

/-- Equal up to the case of the letters a to z. -/
def sameIgnoringCase (s t : Text) : Bool :=
  s.map Char.toLower == t.map Char.toLower

end Text

end LessStyle
