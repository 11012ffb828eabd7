import LessStyle.Text.Position
import Mathlib.Data.List.Induction
import Mathlib.Data.Prod.Lex

/-!
# Positions and lines

`Position.advance` counts along a text. Here its result is read off the text: the line is one more
than the number of line breaks, the column one more than the length of the last line
(`Position.after_eq`). Positions are ordered as pairs of line and column, and to go on by a text that
is not empty is to go strictly further (`Position.lt_advance`). A count that looks at a text as a whole
gives the same result (`Position.behind_eq_advance`).

`Text.line?_after` ties this count to the other way of cutting a text into lines: the line that
`Text.line?` finds at a position begins with all that precedes the position on it.
-/

namespace LessStyle

/-! ## The order -/

namespace Position

/-- Positions are ordered by line, and by column on one line. -/
instance : PartialOrder Position :=
  PartialOrder.lift (fun p : Position => toLex (p.line, p.column)) fun p q h => by
    obtain ⟨h₁, h₂⟩ := Prod.mk.inj (toLex.injective h)
    cases p
    cases q
    simp_all

theorem lt_iff {p q : Position} :
    p < q ↔ p.line < q.line ∨ p.line = q.line ∧ p.column < q.column :=
  Prod.Lex.toLex_lt_toLex

theorem le_iff {p q : Position} :
    p ≤ q ↔ p.line < q.line ∨ p.line = q.line ∧ p.column ≤ q.column :=
  Prod.Lex.toLex_le_toLex

theorem lt_next (p : Position) (c : Char) : p < p.next c := by
  rw [lt_iff, next]
  split
  · exact .inl (Nat.lt_succ_self _)
  · exact .inr ⟨rfl, Nat.lt_succ_self _⟩

theorem le_advance (p : Position) (s : Text) : p ≤ p.advance s := by
  induction s generalizing p with
  | nil => exact le_refl p
  | cons c s ih => exact (p.lt_next c).le.trans (ih _)

/-- A text that is not empty leads strictly further. -/
theorem lt_advance (p : Position) {s : Text} (h : s ≠ []) : p < p.advance s := by
  cases s with
  | nil => exact absurd rfl h
  | cons c s => exact (p.lt_next c).trans_le (le_advance _ s)

theorem after_append (s t : Text) : after (s ++ t) = (after s).advance t :=
  advance_append start s t

theorem after_le_of_prefix {s t : Text} (h : s <+: t) : after s ≤ after t := by
  obtain ⟨r, rfl⟩ := h
  rw [after_append]
  exact le_advance _ r

/-- A further character: a line break starts a line, and any other character takes a column. -/
theorem behind_concat (p : Position) (s : Text) (c : Char) :
    p.behind (s ++ [c]) = (p.behind s).next c := by
  simp only [behind, List.reverse_append, List.reverse_singleton, List.singleton_append,
    List.findIdx?_cons, List.count_append, List.length_append]
  by_cases hc : c = '\n'
  · subst hc
    cases hfind : s.reverse.findIdx? (· == '\n') with
    | none =>
      have hcount : s.count '\n' = 0 := by
        rw [List.count_eq_zero, ← List.mem_reverse]
        intro hmem
        simpa using List.findIdx?_eq_none_iff.1 hfind _ hmem
      simp [next, hcount]
    | some n => simp [next, Nat.add_assoc]
  · cases hfind : s.reverse.findIdx? (· == '\n') with
    | none => simp [next, hc, Nat.add_assoc]
    | some n => simp [next, hc]

/-- **Counting a text at once** leads where counting character by character does. -/
theorem behind_eq_advance (p : Position) (s : Text) : p.behind s = p.advance s := by
  induction s using List.reverseRecOn with
  | nil => rfl
  | append_singleton s c ih =>
    rw [behind_concat, ih, advance_append]
    rfl

end Position

/-- A piece of text ends no earlier than it begins. -/
theorem Span.first_le_last_of (p : Position) (s : Text) :
    (Span.of p s).first ≤ (Span.of p s).last :=
  p.le_advance _

/-- A piece that is not empty ends strictly before what follows it begins. -/
theorem Span.last_of_lt_advance (p : Position) {s : Text} (h : s ≠ []) :
    (Span.of p s).last < p.advance s := by
  have hs := List.dropLast_concat_getLast h
  calc p.advance s.dropLast
      < (p.advance s.dropLast).advance [s.getLast h] := Position.lt_advance _ (by simp)
    _ = p.advance s := by rw [← Position.advance_append, hs]

/-! ## Lines -/

namespace Text

/-- The characters after the last line break. -/
def lastLine (s : Text) : Text := (s.reverse.takeWhile (· != '\n')).reverse

/-- The characters before the first line break. -/
def firstLine (s : Text) : Text := s.takeWhile (· != '\n')

@[simp] theorem lastLine_nil : lastLine [] = [] := rfl

theorem lastLine_concat (s : Text) (c : Char) :
    lastLine (s ++ [c]) = if c = '\n' then [] else lastLine s ++ [c] := by
  by_cases h : c = '\n' <;> simp [lastLine, h]

theorem lastLine_append (s t : Text) :
    lastLine (s ++ t) = if '\n' ∈ t then lastLine t else lastLine s ++ t := by
  induction t using List.reverseRecOn with
  | nil => simp
  | append_singleton t c ih =>
    rw [← List.append_assoc, lastLine_concat, lastLine_concat, ih]
    by_cases hc : c = '\n'
    · simp [hc]
    · by_cases ht : '\n' ∈ t <;> simp [hc, ht, Ne.symm hc]

theorem lastLine_cons (c : Char) (s : Text) :
    lastLine (c :: s) = if '\n' ∈ s ∨ c = '\n' then lastLine s else c :: lastLine s := by
  have hs := lastLine_append [] s
  rw [List.nil_append, lastLine_nil, List.nil_append] at hs
  rw [← List.singleton_append, lastLine_append, hs, ← List.nil_append [c], lastLine_concat]
  by_cases hm : '\n' ∈ s <;> by_cases hc : c = '\n' <;> simp [hm, hc]

theorem lines_ne_nil (s : Text) : lines s ≠ [] := by
  cases s with
  | nil => simp [lines]
  | cons c s =>
    rw [lines]
    split
    · simp
    · split <;> simp

theorem head?_lines (s : Text) : (lines s)[0]? = some s.firstLine := by
  induction s with
  | nil => rfl
  | cons c s ih =>
    rw [lines]
    by_cases h : c = '\n'
    · simp [h, firstLine]
    · cases hl : lines s with
      | nil => exact absurd hl (lines_ne_nil s)
      | cons l ls =>
        rw [hl] at ih
        simp_all [firstLine]

/-- The line of `s ++ t` with as many line breaks before it as `s` has. -/
theorem getElem?_lines_append (s t : Text) :
    (lines (s ++ t))[s.count '\n']? = some (s.lastLine ++ t.firstLine) := by
  induction s with
  | nil => exact head?_lines t
  | cons c s ih =>
    rw [List.cons_append, lines]
    by_cases hc : c = '\n'
    · -- a line break: all line numbers shift by one
      subst hc
      simpa [lastLine_cons] using ih
    · cases hl : lines (s ++ t) with
      | nil => exact absurd hl (lines_ne_nil _)
      | cons l ls =>
        rw [hl] at ih
        rw [List.count_cons_of_ne hc]
        by_cases hs : '\n' ∈ s
        · -- the character stands on an earlier line
          obtain ⟨k, hk⟩ : ∃ k, s.count '\n' = k + 1 :=
            Nat.exists_eq_succ_of_ne_zero (List.count_pos_iff.2 hs).ne'
          rw [hk] at ih ⊢
          simpa [hc, lastLine_cons, hs] using ih
        · rw [List.count_eq_zero.2 hs] at ih ⊢
          simpa [hc, lastLine_cons, hs] using ih

end Text

/-- **The position after a text**, read off the text: its line breaks and its last line. -/
theorem Position.after_eq (s : Text) :
    Position.after s = ⟨1 + s.count '\n', 1 + s.lastLine.length⟩ := by
  induction s using List.reverseRecOn with
  | nil => rfl
  | append_singleton s c ih =>
    rw [after_append, ih, Text.lastLine_concat]
    by_cases h : c = '\n'
    · subst h
      simp [next]
      omega
    · simp [next, h]
      omega

/-- **The line at a position**: it begins with what precedes the position on its line, and goes on to
the next line break. -/
theorem Text.line?_after (s t : Text) :
    (s ++ t).line? (Position.after s).line = some (s.lastLine ++ t.firstLine) := by
  rw [Position.after_eq, line?, if_neg (by simp), Nat.add_sub_cancel_left]
  exact getElem?_lines_append s t

end LessStyle
