import LessStyle.Text.Blank
import Mathlib.Data.List.TakeWhile

/-!
# Scanners and the text they cut

A scanner answers with a width or with the two sides of a cut. Each lemma here says what stands at
the place it answers with, and that the sides together are the text.
-/

namespace LessStyle.Text

theorem take_length_takeWhile {α : Type} (p : α → Bool) (l : List α) :
    l.take (l.takeWhile p).length = l.takeWhile p :=
  (List.prefix_iff_eq_take.1 (List.takeWhile_prefix p)).symm

theorem drop_length_takeWhile {α : Type} (p : α → Bool) (l : List α) :
    l.drop (l.takeWhile p).length = l.dropWhile p := by
  calc l.drop (l.takeWhile p).length
      = (l.takeWhile p ++ l.dropWhile p).drop (l.takeWhile p).length := by
        rw [List.takeWhile_append_dropWhile]
    _ = l.dropWhile p := List.drop_left

/-- A run that the next element, if any, does not continue. -/
theorem takeWhile_append_eq_left {α : Type} {p : α → Bool} {run rest : List α}
    (hrun : ∀ a ∈ run, p a = true) (hrest : ∀ a ∈ rest.head?, p a = false) :
    (run ++ rest).takeWhile p = run := by
  have hnil : rest.takeWhile p = [] := by
    cases rest with
    | nil => rfl
    | cons a rest => rw [List.takeWhile_cons_of_neg (by simp [hrest a rfl])]
  rw [List.takeWhile_append_of_pos hrun, hnil, List.append_nil]

/-- An element of two lists behind each other stands in the first or in the second. -/
theorem append_eq_append_cons_cases {α : Type} {l₁ l₂ front rest : List α} {a : α}
    (h : l₁ ++ l₂ = front ++ a :: rest) :
    (∃ more, l₁ = front ++ a :: more ∧ rest = more ++ l₂) ∨
      ∃ more, front = l₁ ++ more ∧ l₂ = more ++ a :: rest := by
  rcases List.append_eq_append_iff.1 h with ⟨more, hfront, hl₂⟩ | ⟨more, hl₁, hrest⟩
  · exact .inr ⟨more, hfront, hl₂⟩
  · cases more with
    | nil => exact .inr ⟨[], by simpa using hl₁.symm, hrest.symm⟩
    | cons b more =>
      obtain ⟨rfl, rfl⟩ := List.cons.inj hrest
      exact .inl ⟨more, hl₁, rfl⟩

/-- The first element that satisfies `p`, with the list on both sides of it. -/
theorem exists_of_findIdx? {α : Type} {p : α → Bool} {l : List α} {k : Nat}
    (h : l.findIdx? p = some k) :
    ∃ a r, l = l.take k ++ a :: r ∧ p a = true ∧ ∀ b ∈ l.take k, p b = false := by
  obtain ⟨hk, ha, hb⟩ := List.findIdx?_eq_some_iff_getElem.1 h
  refine ⟨l[k], l.drop (k + 1), ?_, ha, fun b hmem => ?_⟩
  · rw [← List.drop_eq_getElem_cons, List.take_append_drop]
  · obtain ⟨j, hj, rfl⟩ := List.getElem_of_mem hmem
    rw [List.length_take] at hj
    rw [List.getElem_take]
    simpa using hb j (by omega)

/-- What is found stands where it is found. -/
theorem isPrefix_drop_of_find? {needle s : Text} {n : Nat} (h : find? needle s = some n) :
    needle <+: s.drop n := by
  induction s generalizing n with
  | nil =>
    rw [find?] at h
    split at h
    · next hn =>
      obtain rfl := Option.some.inj h
      rw [List.isEmpty_iff.1 hn]
      exact List.nil_prefix
    · simp at h
  | cons c s ih =>
    rw [find?] at h
    split at h
    · next hp =>
      obtain rfl := Option.some.inj h
      exact List.isPrefixOf_iff_prefix.1 hp
    · obtain ⟨k, hk, rfl⟩ := Option.map_eq_some_iff.1 h
      exact ih hk

theorem take_find?_add {needle s : Text} {n : Nat} (h : find? needle s = some n) :
    s.take (n + needle.length) = s.take n ++ needle := by
  obtain ⟨r, hr⟩ := isPrefix_drop_of_find? h
  rw [List.take_add, ← hr, List.take_left]

/-- What precedes the first `d` is all of the text if there is none. -/
theorem takeWhile_bne_eq_take (d : Char) (s : Text) :
    s.takeWhile (· != d) = s.take ((find? [d] s).getD s.length) := by
  induction s with
  | nil => rfl
  | cons c s ih =>
    rw [find?, List.isPrefixOf_cons_cons, List.isPrefixOf_nil_left, Bool.and_true]
    by_cases hc : c = d
    · simp [hc]
    · rw [List.takeWhile_cons_of_pos (by simpa using hc), ih,
        if_neg (by simpa using Ne.symm hc)]
      cases find? [d] s <;> rfl

/-- **A cut at `c`** takes out the first one. -/
theorem cutAt?_eq_some_iff {c : Char} {s a b : Text} :
    cutAt? c s = some (a, b) ↔ s = a ++ c :: b ∧ c ∉ a := by
  have happend : ∀ a b : Text, c ∉ a → cutAt? c (a ++ c :: b) = some (a, b) := by
    intro a b ha
    have hall : ∀ d ∈ a, (d != c) = true := by
      intro d hd
      simpa using fun heq : d = c => ha (heq ▸ hd)
    rw [cutAt?, if_pos (by simp), List.takeWhile_append_of_pos hall,
      List.dropWhile_append_of_pos hall]
    simp
  constructor
  · intro h
    by_cases hc : c ∈ s
    · obtain ⟨a', b', rfl, ha'⟩ := List.eq_append_cons_of_mem hc
      rw [happend a' b' ha'] at h
      obtain ⟨rfl, rfl⟩ := Prod.mk.inj (Option.some.inj h)
      exact ⟨rfl, ha'⟩
    · rw [cutAt?, if_neg (by simpa using hc)] at h
      cases h
  · rintro ⟨rfl, ha⟩
    exact happend a b ha

theorem eq_of_cutAt? {c : Char} {s a b : Text} (h : cutAt? c s = some (a, b)) :
    s = a ++ c :: b :=
  (cutAt?_eq_some_iff.1 h).1

theorem dropEndWhile_prefix (p : Char → Bool) (s : Text) : dropEndWhile p s <+: s := by
  have h := List.reverse_prefix.2 (List.dropWhile_suffix (l := s.reverse) p)
  rwa [List.reverse_reverse] at h

/-- What is left out at the end satisfies `p`. -/
theorem exists_append_dropEndWhile (p : Char → Bool) (s : Text) :
    ∃ tail, s = dropEndWhile p s ++ tail ∧ ∀ c ∈ tail, p c = true := by
  refine ⟨(s.reverse.takeWhile p).reverse, ?_, fun c hc => ?_⟩
  · rw [dropEndWhile, ← List.reverse_append, List.takeWhile_append_dropWhile, List.reverse_reverse]
  · exact List.mem_takeWhile_imp (List.mem_reverse.1 hc)

/-- A text is kept up to the last character that does not satisfy `p`. -/
theorem dropEndWhile_append {p : Char → Bool} {c : Char} (s : Text) {t : Text} (hc : p c = false)
    (ht : ∀ d ∈ t, p d = true) : dropEndWhile p (s ++ c :: t) = s ++ [c] := by
  have ht' : ∀ d ∈ t.reverse, p d = true := fun d hd => ht d (List.mem_reverse.1 hd)
  rw [dropEndWhile, List.reverse_append, List.reverse_cons, List.append_assoc,
    List.dropWhile_append_of_pos ht']
  simp [hc]

/-- What is kept does not end with a character that satisfies `p`. -/
theorem getLast?_dropEndWhile {p : Char → Bool} {s : Text} {c : Char}
    (h : c ∈ (dropEndWhile p s).getLast?) : p c = false := by
  rw [dropEndWhile, List.getLast?_reverse] at h
  have hnot := List.head?_dropWhile_not p s.reverse
  rwa [Option.mem_def.1 h] at hnot

/-- A text is the white space in front, the text without white space around it, and what is behind. -/
theorem exists_append_trim (s : Text) : ∃ tail, s.takeWhile isWhite ++ s.trim ++ tail = s := by
  obtain ⟨tail, htail⟩ := dropEndWhile_prefix isWhite s.trimStart
  refine ⟨tail, ?_⟩
  rw [List.append_assoc, trim, trimEnd, htail, trimStart, List.takeWhile_append_dropWhile]

/-- A text that is not blank: white space, and then another character. -/
theorem trim_ne_nil_iff (s : Text) : s.trim ≠ [] ↔
    ∃ white c rest, s = white ++ c :: rest ∧ (∀ a ∈ white, isWhite a = true) ∧ isWhite c = false := by
  constructor
  · intro htrim
    cases hstart : s.trimStart with
    | nil =>
      rw [trim, hstart] at htrim
      exact absurd rfl htrim
    | cons c rest =>
      have hc := List.head?_dropWhile_not isWhite s
      rw [show s.dropWhile isWhite = c :: rest from hstart] at hc
      refine ⟨s.takeWhile isWhite, c, rest, ?_, fun a ha => List.mem_takeWhile_imp ha, by simpa using hc⟩
      rw [← hstart, trimStart, List.takeWhile_append_dropWhile]
  · rintro ⟨white, c, rest, rfl, hwhite, hc⟩ htrim
    have hstart : trimStart (white ++ c :: rest) = c :: rest := by
      rw [trimStart, List.dropWhile_append_of_pos hwhite, List.dropWhile_cons_of_neg (by simp [hc])]
    rw [trim, hstart, trimEnd, dropEndWhile, List.reverse_eq_nil_iff, List.dropWhile_eq_nil_iff] at htrim
    have hwhite := htrim c (by simp)
    rw [hc] at hwhite
    cases hwhite

end LessStyle.Text
