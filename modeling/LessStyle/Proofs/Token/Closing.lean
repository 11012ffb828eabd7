import LessStyle.Proofs.Token.ByteSearch
import Mathlib.Data.List.Induction

/-!
# What closes a piece

A string, an address, a comment and an interpolation end at a closing mark, and the lexer searches for
it. Here the answer of each search is read off the text: it finds the first place where the mark
stands, and finds nothing if the mark stands nowhere. In a string or an address the mark counts only if
no backslash escapes it, that is, after an even number of backslashes (`escapes`).

Text behind a place that was found does not change the answer; this is what the lemmas on `++` say.
-/

namespace LessStyle.Token

open Text

/-! ## Escapes -/

/-- The text ends in an odd number of backslashes, so that the character after it is escaped. -/
def escapes (s : Text) : Bool := trailingBackslashes s % 2 == 1

@[simp] theorem escapes_nil : escapes [] = false := rfl

theorem escapes_concat (s : Text) (c : Char) :
    escapes (s ++ [c]) = (c == '\\' && !escapes s) :=
  odd_trailingBackslashes_concat s c

/-- A character other than a backslash begins anew. -/
theorem escapes_append_cons {c : Char} (hc : c ≠ '\\') (s t : Text) :
    escapes (s ++ c :: t) = escapes t := by
  induction t using List.reverseRecOn with
  | nil =>
    rw [escapes_concat, beq_eq_false_iff_ne.2 hc]
    rfl
  | append_singleton t d ih =>
    rw [← List.cons_append, ← List.append_assoc, escapes_concat, escapes_concat, ih]

/-- The mark `q` stands in the text, and no backslash escapes it. -/
def HasUnescaped (q : Char) (s : Text) : Prop :=
  ∃ a b, s = a ++ q :: b ∧ escapes a = false

theorem hasUnescaped_concat (q : Char) (s : Text) (c : Char) :
    HasUnescaped q (s ++ [c]) ↔ HasUnescaped q s ∨ c = q ∧ escapes s = false := by
  constructor
  · rintro ⟨a, b, h, ha⟩
    cases b using List.reverseRecOn with
    | nil =>
      obtain ⟨rfl, hc⟩ := List.append_inj' h rfl
      exact .inr ⟨(List.cons.inj hc).1, ha⟩
    | append_singleton b d =>
      rw [← List.cons_append, ← List.append_assoc] at h
      exact .inl ⟨a, b, (List.append_inj' h rfl).1, ha⟩
  · rintro (⟨a, b, rfl, ha⟩ | ⟨rfl, hs⟩)
    · exact ⟨a, b ++ [c], by simp, ha⟩
    · exact ⟨s, [], rfl, hs⟩

/-- The search goes on in a text behind the one it has looked through. -/
theorem closing?_append {q : Char} (hq : q ≠ '\\') (u v w : Text) :
    closing? q (escapes u) (v ++ w) =
      (closing? q (escapes u) v).or
        ((closing? q (escapes (u ++ v)) w).map (· + v.length)) := by
  induction v generalizing u with
  | nil => simp [closing?]
  | cons c v ih =>
    have hnext := ih (u ++ [c])
    rw [escapes_concat, List.append_assoc, List.singleton_append] at hnext
    by_cases hc : c = q
    · subst hc
      rw [beq_eq_false_iff_ne.2 hq, Bool.false_and] at hnext
      cases hu : escapes u with
      | true =>
        simp only [List.cons_append, closing?, if_true, hnext, Option.map_or, Option.map_map]
        rfl
      | false => simp [closing?, hq]
    · rw [List.cons_append, closing?_cons_of_ne hc, closing?_cons_of_ne hc, hnext, Option.map_or,
        Option.map_map]
      rfl

/-- What the search finds is the first mark that counts. -/
theorem exists_of_closing? {q : Char} (hq : q ≠ '\\') {u v : Text} {n : Nat}
    (h : closing? q (escapes u) v = some n) :
    ∃ a b, v = a ++ q :: b ∧ n = a.length + 1 ∧ escapes (u ++ a) = false ∧
      closing? q (escapes u) a = none := by
  induction v generalizing u n with
  | nil => cases h
  | cons c v ih =>
    by_cases hfound : c = q ∧ escapes u = false
    · obtain ⟨rfl, hu⟩ := hfound
      rw [hu] at h
      simp only [closing?, Bool.false_eq_true, if_false, beq_iff_eq, hq, if_true] at h
      obtain rfl := Option.some.inj h
      exact ⟨[], v, rfl, rfl, by rw [List.append_nil, hu], rfl⟩
    · -- the first character closes nothing, so the search goes on behind it
      have hstep : ∀ w, closing? q (escapes u) (c :: w) =
          (closing? q (escapes (u ++ [c])) w).map (· + 1) := by
        intro w
        rw [escapes_concat]
        by_cases hc : c = q
        · subst hc
          have hu : escapes u = true := by simpa using hfound
          simp [closing?, hu]
        · exact closing?_cons_of_ne hc _ _
      rw [hstep] at h
      obtain ⟨k, hk, rfl⟩ := Option.map_eq_some_iff.1 h
      obtain ⟨a, b, rfl, rfl, heven, hnone⟩ := ih hk
      refine ⟨c :: a, b, rfl, rfl, ?_, ?_⟩
      · rwa [List.append_assoc] at heven
      · rw [hstep, hnone]
        rfl

/-- The search fails if no mark counts. -/
theorem closing?_eq_none_iff {q : Char} (hq : q ≠ '\\') (v : Text) :
    closing? q false v = none ↔ ¬ HasUnescaped q v := by
  constructor
  · rintro h ⟨a, b, rfl, ha⟩
    have happend := closing?_append hq [] a (q :: b)
    rw [escapes_nil, h, List.nil_append, ha] at happend
    simp [closing?, hq] at happend
  · intro h
    cases hn : closing? q false v with
    | none => rfl
    | some n =>
      obtain ⟨a, b, rfl, -, ha, -⟩ := exists_of_closing? (u := []) hq hn
      exact absurd ⟨a, b, rfl, ha⟩ h

/-- **The first mark that counts**: what the search finds, told by the text alone. -/
theorem closing?_eq_some_iff {q : Char} (hq : q ≠ '\\') (v : Text) (n : Nat) :
    closing? q false v = some n ↔
      ∃ a b, v = a ++ q :: b ∧ n = a.length + 1 ∧ escapes a = false ∧ ¬ HasUnescaped q a := by
  constructor
  · intro h
    obtain ⟨a, b, hv, hn, ha, hnone⟩ := exists_of_closing? (u := []) hq h
    exact ⟨a, b, hv, hn, ha, (closing?_eq_none_iff hq a).1 hnone⟩
  · rintro ⟨a, b, rfl, rfl, ha, hnone⟩
    have happend := closing?_append hq [] a (q :: b)
    rw [escapes_nil, (closing?_eq_none_iff hq a).2 hnone, List.nil_append, ha] at happend
    rw [happend]
    simp [closing?, hq, Nat.add_comm]

theorem closing?_append_of_eq_some {q : Char} (hq : q ≠ '\\') {v : Text} {n : Nat}
    (h : closing? q false v = some n) (w : Text) : closing? q false (v ++ w) = some n := by
  have happend := closing?_append hq [] v w
  rwa [escapes_nil, h, Option.some_or] at happend

/-! ## Marks that cannot be escaped -/

theorem through?_append_of_eq_some {c : Char} {s : Text} {n : Nat} (h : through? c s = some n)
    (x : Text) : through? c (s ++ x) = some n := by
  rw [through?] at h ⊢
  obtain ⟨k, hk, rfl⟩ := Option.map_eq_some_iff.1 h
  rw [List.findIdx?_append, hk]
  rfl

theorem through?_eq_none_iff (c : Char) (s : Text) : through? c s = none ↔ c ∉ s := by
  rw [through?, Option.map_eq_none_iff, List.findIdx?_eq_none_iff]
  constructor
  · intro h hc
    simpa using h c hc
  · intro h d hd
    rw [beq_eq_false_iff_ne]
    rintro rfl
    exact h hd

theorem through?_concat {c : Char} {s : Text} (h : c ∉ s) :
    through? c (s ++ [c]) = some (s.length + 1) := by
  have hnone := (through?_eq_none_iff c s).2 h
  rw [through?, Option.map_eq_none_iff] at hnone
  rw [through?, List.findIdx?_append, hnone]
  simp

theorem find?_eq_none_iff (needle s : Text) : find? needle s = none ↔ ¬ needle <:+: s := by
  induction s with
  | nil =>
    rw [find?, List.infix_nil]
    cases needle <;> simp
  | cons c s ih =>
    rw [find?, List.infix_cons_iff, ← List.isPrefixOf_iff_prefix, not_or, ← ih]
    cases needle.isPrefixOf (c :: s) <;> simp

/-- What is found fits into the text. -/
theorem add_length_le_of_find? {needle s : Text} {n : Nat} (h : find? needle s = some n) :
    n + needle.length ≤ s.length := by
  induction s generalizing n with
  | nil =>
    rw [find?] at h
    split at h
    · next hempty =>
      obtain rfl := Option.some.inj h
      simp [List.isEmpty_iff.1 hempty]
    · cases h
  | cons c s ih =>
    rw [find?] at h
    split at h
    · next hp =>
      obtain rfl := Option.some.inj h
      have := (List.isPrefixOf_iff_prefix.1 hp).length_le
      omega
    · obtain ⟨k, hk, rfl⟩ := Option.map_eq_some_iff.1 h
      have := ih hk
      rw [List.length_cons]
      omega

theorem find?_append_of_eq_some {needle s : Text} {n : Nat} (h : find? needle s = some n)
    (x : Text) : find? needle (s ++ x) = some n := by
  induction s generalizing n with
  | nil =>
    rw [find?] at h
    split at h
    · next hempty =>
      obtain rfl := Option.some.inj h
      rw [List.isEmpty_iff.1 hempty]
      cases x <;> simp [find?]
    · cases h
  | cons c s ih =>
    have hfits := add_length_le_of_find? h
    have hprefix : needle.isPrefixOf (c :: (s ++ x)) = needle.isPrefixOf (c :: s) := by
      rw [Bool.eq_iff_iff, List.isPrefixOf_iff_prefix, List.isPrefixOf_iff_prefix]
      constructor
      · intro hp
        exact List.prefix_of_prefix_length_le hp (List.prefix_append (c :: s) x) (by omega)
      · intro hp
        exact hp.trans (List.prefix_append (c :: s) x)
    rw [List.cons_append, find?, hprefix]
    rw [find?] at h
    split
    · next hp =>
      rw [if_pos hp] at h
      exact h
    · next hp =>
      rw [if_neg hp] at h
      obtain ⟨k, hk, rfl⟩ := Option.map_eq_some_iff.1 h
      rw [ih hk]
      rfl

end LessStyle.Token
