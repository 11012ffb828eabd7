import LessStyle.Text.Basic

/-!
# Highlighting

A line of the source with a mark in it. A highlight cuts the line into the text before the mark, the
marked text and the text after it; rendering puts colour codes around the mark and writes a message
behind the line. Whatever is marked, the three texts together are the line.
-/

namespace LessStyle

/-- A line in three pieces, of which the second is marked. -/
structure Highlight where
  head : Text
  mark : Text
  tail : Text
  deriving DecidableEq, Repr

/-- The offset in bytes of a column of a line, the length of the line beyond its end. -/
def columnOffset (line : Text) (column : Nat) : Nat := Text.byteLength (line.take (column - 1))

namespace Highlight

/-- The line. -/
def line (h : Highlight) : Text := h.head ++ h.mark ++ h.tail

/-- No mark. -/
def nothing (line : Text) : Highlight := ⟨line, [], []⟩

/-- Bytes `start` to `stop` marked; nothing if these are not offsets of characters in order. -/
def bytes (line : Text) (start stop : Nat) : Highlight :=
  match line.splitBytes? start, line.sliceBytes? start stop, line.splitBytes? stop with
  | some (head, _), some mark, some (_, tail) => ⟨head, mark, tail⟩
  | _, _, _ => nothing line

/-- The first occurrence of `segment` marked, nothing if it is empty or does not occur. -/
def segment (line segment : Text) : Highlight :=
  match if segment.isEmpty then none else Text.find? segment line with
  | some n =>
    let start := Text.byteLength (line.take n)
    bytes line start (start + Text.byteLength segment)
  | none => bytes line (Text.byteLength line) (Text.byteLength line)

/-- The characters of `width` columns from `column` on marked, as far as the line reaches. -/
def columns (line : Text) (column width : Nat) : Highlight :=
  bytes line (columnOffset line column) (columnOffset line (column + width))

/-- Back to plain text. -/
def plain : Text := "\x1b[0m".toList

/-- Magenta, for the mark. -/
def markColor : Text := "\x1b[35m".toList

/-- Grey, for the message. -/
def messageColor : Text := "\x1b[38;5;8m".toList

/-- The line between backquotes with its mark in colour, and the message. Plain text is restored before
and after each colour. -/
def render (h : Highlight) (message : Text) : Text :=
  '`' :: h.head ++ plain ++ markColor ++ h.mark ++ plain ++ h.tail ++ '`' :: ' ' ::
    plain ++ messageColor ++ message ++ plain

end Highlight

end LessStyle
