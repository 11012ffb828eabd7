import LessStyle.Proofs.Text.Utf8
import LessStyle.Rule.Basic

/-!
# Highlighted lines

A highlight is cut out of a line by two byte offsets. Whatever these are, its three pieces are the line
(`Highlight.line_bytes`), and at the offsets of characters they are the texts on the three sides of them
(`Highlight.bytes_append`). Columns are such offsets (`Highlight.columns_eq`), so the mark of a finding
on columns is the text in them.

A rendering is a list of strokes, each a text or a code for a colour. Without the codes it is the
quoted line and the message (`Highlight.join_texts`), the same as the message of a record that quotes
its line.
-/

namespace LessStyle

open Text

/-! ## Strokes -/

/-- A piece of a rendering. -/
structure Stroke where
  text : Text
  /-- An escape code, which the terminal does not show. -/
  isCode : Bool
  deriving DecidableEq, Repr

/-- The text of consecutive strokes. -/
def Stroke.join (ss : List Stroke) : Text := ss.flatMap Stroke.text

/-- The line between backquotes, a space and the message. -/
def quoted (line message : Text) : Text := '`' :: line ++ '`' :: ' ' :: message

/-- The character that begins an escape code. -/
def escape : Char := '\x1b'

/-- The text without its escape codes, each of which goes on to the next `m`. `inCode` says that the
text begins inside a code. -/
def strip (inCode : Bool) : Text → Text
  | [] => []
  | c :: s =>
    if inCode then strip (c != 'm') s
    else if c == escape then strip true s
    else c :: strip false s

theorem strip_append {s : Text} (h : escape ∉ s) (t : Text) :
    strip false (s ++ t) = s ++ strip false t := by
  induction s with
  | nil => rfl
  | cons c s ih =>
    rw [List.mem_cons, not_or] at h
    have hc : ¬ (c == escape) = true := by simpa using Ne.symm h.1
    rw [List.cons_append, strip, if_neg Bool.false_ne_true, if_neg hc, ih h.2, List.cons_append]

namespace Highlight

/-- The strokes of a rendering: the pieces of the line and the message, with a code for plain text
before and after each colour. -/
def strokes (h : Highlight) (message : Text) : List Stroke :=
  [⟨'`' :: h.head, false⟩, ⟨plain, true⟩, ⟨markColor, true⟩, ⟨h.mark, false⟩, ⟨plain, true⟩,
    ⟨h.tail ++ ['`', ' '], false⟩, ⟨plain, true⟩, ⟨messageColor, true⟩, ⟨message, false⟩,
    ⟨plain, true⟩]

theorem join_strokes (h : Highlight) (message : Text) :
    Stroke.join (h.strokes message) = h.render message := by
  simp [Stroke.join, strokes, render]

/-- **Without its codes a rendering is the quoted line and the message.** -/
theorem join_texts (h : Highlight) (message : Text) :
    Stroke.join ((h.strokes message).filter (!·.isCode)) = quoted h.line message := by
  simp [Stroke.join, strokes, quoted, line]

theorem strip_render {h : Highlight} {message : Text} (hline : escape ∉ h.line)
    (hmessage : escape ∉ message) : strip false (h.render message) = quoted h.line message := by
  have hplain : ∀ s, strip false (plain ++ s) = strip false s := fun _ => rfl
  have hmark : ∀ s, strip false (markColor ++ s) = strip false s := fun _ => rfl
  have hgrey : ∀ s, strip false (messageColor ++ s) = strip false s := fun _ => rfl
  simp only [line, List.mem_append, not_or] at hline
  obtain ⟨⟨hhead, hmarked⟩, htail⟩ := hline
  have hopen : escape ∉ '`' :: h.head := by simpa [escape] using hhead
  have hclose : escape ∉ h.tail ++ ['`', ' '] := by simpa [escape] using htail
  have hrender : h.render message = ('`' :: h.head) ++ (plain ++ (markColor ++ (h.mark ++ (plain ++
      ((h.tail ++ ['`', ' ']) ++ (plain ++ (messageColor ++ (message ++ (plain ++ []))))))))) := by
    simp [render]
  rw [hrender, strip_append hopen, hplain, hmark, strip_append hmarked, hplain, strip_append hclose,
    hplain, hgrey, strip_append hmessage, hplain]
  simp [quoted, line, strip]

/-- The highlight shows a line and a message as `colored`: its pieces are the line, and without the
codes that were put in, `colored` is the quoted line and the message. If no codes stood in these, it
makes no difference which codes are left out. -/
structure Shows (h : Highlight) (line message colored : Text) : Prop where
  line_eq : h.head ++ h.mark ++ h.tail = line
  written : Stroke.join (h.strokes message) = colored
  uncolored : Stroke.join ((h.strokes message).filter (!·.isCode)) = quoted line message
  stripped : escape ∉ line → escape ∉ message → strip false colored = quoted line message

theorem shows_render (h : Highlight) (message : Text) :
    h.Shows h.line message (h.render message) :=
  ⟨rfl, h.join_strokes message, h.join_texts message, strip_render⟩

/-! ## Bytes -/

/-- At the offsets of characters. -/
theorem bytes_append (a m b : Text) :
    bytes (a ++ (m ++ b)) (byteLength a) (byteLength a + byteLength m) = ⟨a, m, b⟩ := by
  have hstop : splitBytes? (byteLength a + byteLength m) (a ++ (m ++ b)) = some (a ++ m, b) := by
    rw [← byteLength_append, ← List.append_assoc, splitBytes?_append]
  rw [bytes, splitBytes?_append, sliceBytes?_append, hstop]

/-- **The pieces of a highlight are the line**, whatever the offsets. -/
theorem line_bytes (s : Text) (start stop : Nat) : (bytes s start stop).line = s := by
  unfold bytes
  split
  · next head rest mark front tail hstart hslice hstop =>
    rw [sliceBytes?, hstop] at hslice
    obtain ⟨⟨first, second⟩, hfront, rfl⟩ := Option.map_eq_some_iff.1 hslice
    obtain ⟨rfl, rfl⟩ := splitBytes?_eq_some hfront
    obtain ⟨rfl, -⟩ := splitBytes?_eq_some hstop
    -- both cuts at the start give the same head
    rw [List.append_assoc, splitBytes?_append] at hstart
    obtain ⟨rfl, -⟩ := Prod.mk.inj (Option.some.inj hstart)
    rfl
  · simp [line, nothing]

/-! ## Columns -/

/-- The text in the columns of a line from `first` on and before `stop`. -/
def inColumns (s : Text) (first stop : Nat) : Text :=
  ((s.zipIdx 1).filter fun p => first ≤ p.2 ∧ p.2 < stop).map Prod.fst

/-- Columns that are counted from `k` on. -/
theorem map_filter_zipIdx (s : Text) (k first stop : Nat) :
    ((s.zipIdx k).filter fun p => first ≤ p.2 ∧ p.2 < stop).map Prod.fst =
      (s.take (stop - k)).drop (first - k) := by
  induction s generalizing k with
  | nil => simp
  | cons c s ih =>
    rw [List.zipIdx_cons, List.filter_cons]
    by_cases hstop : k < stop
    · rw [show stop - k = (stop - (k + 1)) + 1 by omega, List.take_succ_cons]
      by_cases hfirst : first ≤ k
      · rw [if_pos (by simpa using ⟨hfirst, hstop⟩), List.map_cons, ih,
          show first - k = 0 by omega, show first - (k + 1) = 0 by omega]
        rfl
      · rw [if_neg (by simp [hfirst]), ih, show first - k = (first - (k + 1)) + 1 by omega,
          List.drop_succ_cons]
    · rw [if_neg (by simp [hstop]), ih, show stop - k = 0 by omega,
        show stop - (k + 1) = 0 by omega]
      simp

theorem inColumns_eq (s : Text) (first stop : Nat) :
    inColumns s first stop = (s.take (stop - 1)).drop (first - 1) :=
  map_filter_zipIdx s 1 first stop

/-- **The mark of a highlight by columns is the text in the columns.** -/
theorem columns_eq (s : Text) (column width : Nat) :
    columns s column width =
      ⟨s.take (column - 1), inColumns s column (column + width), s.drop (column + width - 1)⟩ := by
  have hfront : s.take (column - 1) ++ inColumns s column (column + width) =
      s.take (column + width - 1) := by
    have htake : s.take (column - 1) = (s.take (column + width - 1)).take (column - 1) := by
      rw [List.take_take, Nat.min_eq_left (by omega)]
    rw [inColumns_eq, htake, List.take_append_drop]
  have hline : s.take (column - 1) ++
      (inColumns s column (column + width) ++ s.drop (column + width - 1)) = s := by
    rw [← List.append_assoc, hfront, List.take_append_drop]
  have hbytes := bytes_append (s.take (column - 1)) (inColumns s column (column + width))
    (s.drop (column + width - 1))
  rw [hline, ← byteLength_append, hfront] at hbytes
  exact hbytes

theorem line_columns (s : Text) (column width : Nat) : (columns s column width).line = s :=
  line_bytes s _ _

theorem line_segment (s needle : Text) : (segment s needle).line = s := by
  unfold segment
  split
  · exact line_bytes s _ _
  · exact line_bytes s _ _

/-- A line in three pieces, shown with any message. -/
theorem shows_of_line_eq {h : Highlight} {s : Text} (hline : h.line = s) (message : Text) :
    h.Shows s message (h.render message) := by
  subst hline
  exact shows_render h message

/-- The record has a coloured text, in which the highlight shows the line and the message. -/
def ShownBy (h : Highlight) (line message : Text) (d : Diagnostic) : Prop :=
  ∃ colored, d.highlighted = some colored ∧ h.Shows line message colored

/-- **Highlighting loses no text.** Whatever the offsets, a highlight shows the whole line and the
message; at the offsets of characters its mark is the text between them. The message of a record that
quotes its line is what is shown without colours. The mark of a record on columns is the text in these
columns, as far as the line reaches. -/
theorem shows_whole_line :
    (∀ (line : Text) (start stop : Nat) (message : Text),
      (bytes line start stop).Shows line message ((bytes line start stop).render message)) ∧
    (∀ head mark tail : Text,
      bytes (head ++ (mark ++ tail)) (byteLength head) (byteLength head + byteLength mark) =
        ⟨head, mark, tail⟩) ∧
    ∀ (page : Page) (rule : Text) (line column : Nat) (message : Text),
      (∀ needle : Text,
        let d := (page.quoteSegment line column needle message).toDiagnostic rule
        (∃ h : Highlight, h.ShownBy (page.line line) message d) ∧
        d.message = quoted (page.line line) message) ∧
      (∀ width : Nat,
        let d := (page.quoteColumns line column width message).toDiagnostic rule
        (∃ h : Highlight, h.ShownBy (page.line line) message d ∧
          h.mark = inColumns (page.line line) column (column + width)) ∧
        d.message = quoted (page.line line) message) ∧
      ∀ width : Nat,
        let d := (page.reportColumns line column width message).toDiagnostic rule
        ∃ h : Highlight, h.ShownBy (page.line line) message d ∧
          h.mark = inColumns (page.line line) column (column + width) := by
  refine ⟨fun line start stop message => shows_of_line_eq (line_bytes line start stop) message,
    bytes_append, fun page rule line column message => ⟨fun needle => ?_, fun width => ?_,
    fun width => ?_⟩⟩
  · have hline := line_segment (page.line line) needle
    exact ⟨⟨_, _, rfl, shows_of_line_eq hline message⟩, rfl⟩
  · have hline := line_columns (page.line line) column width
    refine ⟨⟨_, ⟨_, rfl, shows_of_line_eq hline message⟩, ?_⟩, rfl⟩
    rw [columns_eq]
  · have hline := line_columns (page.line line) column width
    refine ⟨_, ⟨_, rfl, shows_of_line_eq hline message⟩, ?_⟩
    rw [columns_eq]

end Highlight

end LessStyle
