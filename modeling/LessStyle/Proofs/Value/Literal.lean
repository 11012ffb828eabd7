import LessStyle.Text.Blank
import LessStyle.Value.Literal

/-!
# Places outside literals

`Outside value rest` says that `rest` is left of a value at a place outside its literals: behind the
characters that begin no literal, and behind whole literals. A mask agrees with the value at these
places, and blanks out what lies between them.
-/

namespace LessStyle

open Text

/-- What is left of a value at a place outside its literals. -/
inductive Outside : Text → Text → Prop where
  | here (s : Text) : Outside s s
  | char {c : Char} {s rest : Text} (plain : literalWidth? c s = none) (tail : Outside s rest) :
      Outside (c :: s) rest
  | literal {c : Char} {s rest : Text} {n : Nat} (width : literalWidth? c s = some n)
      (tail : Outside (s.drop n) rest) : Outside (c :: s) rest

theorem Outside.isSuffix {s rest : Text} (h : Outside s rest) : rest <:+ s := by
  induction h with
  | here s => exact List.suffix_refl s
  | char _ _ ih => exact ih.trans (List.suffix_cons _ _)
  | literal _ _ ih => exact ih.trans ((List.drop_suffix _ _).trans (List.suffix_cons _ _))

/-! ## Masks -/

theorem mask_nil : mask [] = [] := by
  rw [mask]

theorem mask_of_none {c : Char} {s : Text} (h : literalWidth? c s = none) :
    mask (c :: s) = c :: mask s := by
  rw [mask, h]

theorem mask_of_some {c : Char} {s : Text} {n : Nat} (h : literalWidth? c s = some n) :
    mask (c :: s) = spacesFor (c :: s.take n) ++ mask (s.drop n) := by
  rw [mask, h]

/-- The text begins with a literal. -/
def beginsLiteral : Text → Bool
  | [] => false
  | c :: s => (literalWidth? c s).isSome

/-- Only a quote or a `u` can begin a literal. -/
theorem literalWidth?_of_ne {c : Char} (hquote : isQuote c = false) (hu : c.toLower ≠ 'u')
    (s : Text) : literalWidth? c s = none := by
  have hurl : startsUrl (c :: s) = false := by
    simp [startsUrl, sameIgnoringCase, hu]
  rw [literalWidth?, hquote, hurl]
  rfl

theorem literalWidth?_comma (s : Text) : literalWidth? ',' s = none :=
  literalWidth?_of_ne (by decide) (by decide) s

theorem toLower_ne_of_isWhite {c : Char} (h : isWhite c = true) : c.toLower ≠ 'u' := by
  intro hu
  unfold Char.toLower at hu
  split at hu
  · next hc =>
    have hlow : 65 ≤ c.toNat := hc.1
    have hhigh : c.toNat ≤ 90 := hc.2
    simp only [isWhite, Bool.or_eq_true, Bool.and_eq_true, decide_eq_true_eq, beq_iff_eq] at h
    omega
  · subst hu
    revert h
    decide

theorem literalWidth?_of_isWhite {c : Char} (h : isWhite c = true) (s : Text) :
    literalWidth? c s = none := by
  refine literalWidth?_of_ne ?_ (toLower_ne_of_isWhite h) s
  rw [isQuote, Bool.or_eq_false_iff, beq_eq_false_iff_ne, beq_eq_false_iff_ne]
  constructor
  · rintro rfl
    exact absurd h (by decide)
  · rintro rfl
    exact absurd h (by decide)

/-- White space is no literal. -/
theorem mask_append_of_isWhite {gap : Text} (h : ∀ c ∈ gap, isWhite c = true) (tail : Text) :
    mask (gap ++ tail) = gap ++ mask tail := by
  induction gap with
  | nil => rfl
  | cons c gap ih =>
    rw [List.cons_append, mask_of_none (literalWidth?_of_isWhite (h c List.mem_cons_self) _),
      ih fun d hd => h d (List.mem_cons_of_mem c hd), List.cons_append]

theorem pos_of_closing? {q : Char} {escaped : Bool} {s : Text} {n : Nat}
    (h : closing? q escaped s = some n) : 0 < n := by
  have hmap : ∀ {x : Option Nat}, x.map (· + 1) = some n → 0 < n := by
    intro x hx
    obtain ⟨k, -, rfl⟩ := Option.map_eq_some_iff.1 hx
    exact Nat.succ_pos k
  cases s with
  | nil => cases h
  | cons c s =>
    rw [closing?] at h
    split at h
    · exact hmap h
    split at h
    · exact hmap h
    split at h
    · exact Option.some.inj h ▸ Nat.one_pos
    · exact hmap h

theorem pos_of_through? {c : Char} {s : Text} {n : Nat} (h : through? c s = some n) : 0 < n := by
  obtain ⟨k, -, rfl⟩ := Option.map_eq_some_iff.1 h
  exact Nat.succ_pos k

/-- A literal that is its first character alone ends the value. -/
theorem eq_nil_of_literalWidth? {c : Char} {s : Text} (h : literalWidth? c s = some 0) : s = [] := by
  have hwidth : ∀ {x : Option Nat}, (∀ n, x = some n → 0 < n) → x.getD s.length = 0 → s = [] := by
    intro x hpos hx
    cases x with
    | none => exact List.length_eq_zero_iff.1 hx
    | some n => exact absurd hx (Nat.ne_of_gt (hpos n rfl))
  unfold literalWidth? at h
  split at h
  · exact hwidth (fun n => pos_of_closing?) (Option.some.inj h)
  split at h
  · exact hwidth (fun n => pos_of_through?) (Option.some.inj h)
  · cases h

end LessStyle
