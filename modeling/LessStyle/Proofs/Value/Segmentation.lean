import LessStyle.Proofs.Text.Utf8
import LessStyle.Proofs.Value.Nesting
import LessStyle.Proofs.Value.Part

/-!
# The parts of a value and what lies between them

`split` cuts a value at the separators of its top level and trims the pieces. Here the answer is
described by the characters of the value alone (`Part.Segmentation`): each stands in one part, or it is
white space or a separator at the top level, and no part holds such a separator.

The argument is in two steps. A character is a separator or stands in one piece of a cut
(`Part.Cut.locate`), and trimming a piece leaves out only white space (`Part.exists_trim?`).
-/

namespace LessStyle.Part

open Text

variable {separators : List Char} {n : Nesting} {offset : Nat} {s : Text} {ps : List Part}

/-! ## Pieces -/

/-- **A character is a separator or stands in a piece.** A separator stands in no piece. -/
theorem Cut.locate (h : Cut separators n offset s ps) {front rest : Text} {c : Char}
    (hs : s = front ++ c :: rest) :
    ((front.foldl Nesting.step n).separates separators c = true ∧
        ¬ Covers ps (offset + front.byteLength)) ∨
      (front.foldl Nesting.step n).separates separators c = false ∧
        ∃ p ∈ ps, ∃ a b, p.text = a ++ c :: b ∧
          p.offset + a.byteLength = offset + front.byteLength := by
  induction h generalizing front with
  | @whole n offset s keeps =>
    exact .inr ⟨keeps front c rest hs, ⟨offset, s⟩, List.mem_singleton_self _, front, rest, hs, rfl⟩
  | @cut n offset piece s d ps keeps separates tail ih =>
    rcases append_eq_append_cons_cases hs with ⟨more, rfl, -⟩ | ⟨more, rfl, hmore⟩
    · -- in the first piece
      exact .inr ⟨keeps front c more rfl, ⟨offset, front ++ c :: more⟩, List.mem_cons_self, front, more,
        rfl, rfl⟩
    · cases more with
      | nil =>
        -- the separator itself, between the first piece and the others
        obtain ⟨rfl, rfl⟩ := List.cons.inj hmore
        rw [List.append_nil]
        refine .inl ⟨separates, ?_⟩
        rintro ⟨p, hp, hle, hlt⟩
        rcases List.mem_cons.1 hp with rfl | hp
        · exact absurd hlt (Nat.lt_irrefl _)
        · have hstart := (tail.standsIn p hp).bounds.1
          have hsize := d.utf8Size_pos
          omega
      | cons e more =>
        obtain ⟨rfl, rfl⟩ := List.cons.inj hmore
        have hoffset : offset + byteLength (piece ++ d :: more) =
            offset + byteLength piece + d.utf8Size + byteLength more := by
          rw [byteLength_append, byteLength_cons]
          omega
        rw [List.foldl_append, List.foldl_cons, hoffset]
        rcases ih rfl with ⟨hsep, hcovers⟩ | ⟨hsep, p, hp, hstands⟩
        · refine .inl ⟨hsep, ?_⟩
          rintro ⟨p, hp, hle, hlt⟩
          rcases List.mem_cons.1 hp with rfl | hp
          · simp only [stop] at hlt
            omega
          · exact hcovers ⟨p, hp, hle, hlt⟩
        · exact .inr ⟨hsep, p, List.mem_cons_of_mem _ hp, hstands⟩

/-- A separator stands behind a piece, before the next one. -/
theorem Cut.pairwise_separated (h : Cut separators n offset s ps) :
    ps.Pairwise fun p q => ∃ front c rest, s = front ++ c :: rest ∧
      (front.foldl Nesting.step n).separates separators c = true ∧
      offset + byteLength front = p.stop ∧ p.stop < q.offset := by
  induction h with
  | whole keeps => exact List.pairwise_singleton _ _
  | @cut n offset piece s c ps keeps separates tail ih =>
    refine .cons ?_ (ih.imp ?_)
    · intro q hq
      have hstart := (tail.standsIn q hq).bounds.1
      have hsize := c.utf8Size_pos
      refine ⟨piece, c, s, rfl, separates, rfl, ?_⟩
      show offset + piece.byteLength < q.offset
      omega
    · rintro p q ⟨front, d, rest, rfl, hsep, hoffset, hlt⟩
      refine ⟨piece ++ c :: front, d, rest, by simp, ?_, ?_, hlt⟩
      · rwa [List.foldl_append, List.foldl_cons]
      · rw [← hoffset, byteLength_append, byteLength_cons]
        omega

/-! ## Trimmed pieces -/

/-- What is left of a piece holds all of its characters but white space. -/
theorem exists_trim? {p : Part} {a b : Text} {c : Char} (h : p.text = a ++ c :: b)
    (hc : isWhite c = false) :
    ∃ q, p.trim? = some q ∧ q.offset ≤ p.offset + a.byteLength ∧
      p.offset + a.byteLength < q.stop := by
  obtain ⟨tail, htail, hwhite⟩ := exists_append_dropEndWhile isWhite p.text.trimStart
  have hsplit : p.text.takeWhile isWhite ++ (p.text.trim ++ tail) = a ++ c :: b := by
    rw [← h, trim, trimEnd, ← htail, trimStart, List.takeWhile_append_dropWhile]
  have hcut : ∃ front back, a = p.text.takeWhile isWhite ++ front ∧
      p.text.trim = front ++ c :: back := by
    rcases append_eq_append_cons_cases hsplit with ⟨more, hfront, -⟩ | ⟨front, ha, hrest⟩
    · have hmem : c ∈ p.text.takeWhile isWhite := by simp [hfront]
      rw [List.mem_takeWhile_imp hmem] at hc
      cases hc
    · rcases append_eq_append_cons_cases hrest with ⟨back, htrim, -⟩ | ⟨more, -, hmore⟩
      · exact ⟨front, back, ha, htrim⟩
      · rw [hwhite c (by simp [hmore])] at hc
        cases hc
  obtain ⟨front, back, ha, htrim⟩ := hcut
  refine ⟨⟨p.offset + byteLength (p.text.takeWhile isWhite), p.text.trim⟩, ?_, ?_, ?_⟩
  · rw [trim?, if_neg (by simp [htrim])]
  · show p.offset + byteLength (p.text.takeWhile isWhite) ≤ p.offset + byteLength a
    rw [ha, byteLength_append]
    omega
  · have hsize := c.utf8Size_pos
    simp only [stop, ha, htrim, byteLength_append, byteLength_cons]
    omega

theorem stop_le_of_trim? {p q : Part} (h : p.trim? = some q) :
    p.offset ≤ q.offset ∧ q.stop ≤ p.stop := by
  obtain ⟨front, rest, htext, hoffset⟩ := exists_of_trim? h
  simp only [stop, htext, hoffset, byteLength_append]
  omega

theorem isWhite_of_mem_getLast? {v : Text} {q : Part} (h : q ∈ split separators v) {c : Char}
    (hc : c ∈ q.text.getLast?) : isWhite c = false := by
  obtain ⟨p, -, hq⟩ := List.mem_filterMap.1 h
  unfold trim? at hq
  dsimp only at hq
  split at hq
  · cases hq
  · obtain rfl := Option.some.inj hq
    exact getLast?_dropEndWhile hc

/-! ## Segmentations -/

/-- A character behind `front` is a separator at the top level. -/
structure IsCut (separators : List Char) (front : Text) (c : Char) : Prop where
  mem : c ∈ separators
  top : Nesting.AtTop front

/-- The parts of a value between the separators of its top level, by the characters of the value. -/
structure Segmentation (separators : List Char) (v : Text) (ps : List Part) : Prop where
  /-- A part is the value from its offset on. -/
  slice : ∀ p ∈ ps, v.sliceBytes? p.offset p.stop = some p.text
  nonempty : ∀ p ∈ ps, p.text ≠ []
  /-- A part does not begin or end with white space. -/
  trimmed : ∀ p ∈ ps, (∀ c ∈ p.text.head?, isWhite c = false) ∧
    ∀ c ∈ p.text.getLast?, isWhite c = false
  /-- A part ends before the next one begins. -/
  ordered : ps.Pairwise fun p q => p.stop < q.offset
  /-- What no part holds is white space or a separator. -/
  outside : ∀ front c rest, v = front ++ c :: rest → ¬ Covers ps front.byteLength →
    isWhite c = true ∨ IsCut separators front c
  /-- No part holds a separator. -/
  inside : ∀ front c rest, v = front ++ c :: rest → Covers ps front.byteLength →
    ¬ IsCut separators front c
  /-- Between two parts there is a separator. -/
  between : ps.Pairwise fun p q => ∃ front c rest, v = front ++ c :: rest ∧
    p.stop ≤ front.byteLength ∧ front.byteLength < q.offset ∧ IsCut separators front c

theorem IsCut.of_separates {front : Text} {c : Char}
    (h : (front.foldl Nesting.step .start).separates separators c = true) :
    IsCut separators front c := by
  simp only [Nesting.separates, Bool.and_eq_true, List.contains_iff_mem] at h
  exact ⟨h.2, (Nesting.isTop_foldl_iff front).1 h.1.1⟩

theorem IsCut.separates {front : Text} {c : Char} (h : IsCut separators front c)
    (hmark : Nesting.isMark c = false) :
    (front.foldl Nesting.step .start).separates separators c = true := by
  simp [Nesting.separates, (Nesting.isTop_foldl_iff front).2 h.top, hmark, h.mem]

/-- **Splitting cuts a value exactly at the separators of its top level.** Let no separator be a
backslash, a quote or a parenthesis. The parts stand in the value, in order and apart from each other,
and are trimmed. A character outside them is white space or a separator at the top level, there is such
a separator between any two parts, and there is none in a part. -/
theorem segmentation_split (hmarks : ∀ c ∈ ['\\', '"', '\'', '(', ')'], c ∉ separators) (v : Text) :
    Segmentation separators v (split separators v) := by
  have hcut := cut_segments separators .start 0 v
  have hmark : ∀ c ∈ separators, Nesting.isMark c = false := by
    intro c hc
    rw [Bool.eq_false_iff]
    intro htrue
    refine hmarks c ?_ hc
    simpa [Nesting.isMark, or_assoc] using htrue
  refine ⟨?_, fun p hp => (trimmed_of_mem_split hp).ne_nil, ?_, pairwise_split separators v, ?_, ?_, ?_⟩
  · intro p hp
    obtain ⟨front, rest, rfl, hoffset⟩ := standsIn_of_mem_split hp
    rw [Nat.zero_add] at hoffset
    rw [stop, hoffset]
    exact sliceBytes?_append front p.text rest
  · intro p hp
    refine ⟨fun c hc => ?_, fun c hc => isWhite_of_mem_getLast? hp hc⟩
    have hhead := List.head?_dropWhile_not isWhite p.text
    rw [show p.text.dropWhile isWhite = p.text from (trimmed_of_mem_split hp).trimStart,
      Option.mem_def.1 hc] at hhead
    exact hhead
  · intro front c rest hv hcovers
    rcases hcut.locate hv with ⟨hsep, -⟩ | ⟨-, p, hp, a, b, htext, hoffset⟩
    · exact .inr (.of_separates hsep)
    · -- a character of a piece that is left out in trimming
      rw [Nat.zero_add] at hoffset
      refine .inl ?_
      by_contra hc
      obtain ⟨q, hq, hle, hlt⟩ := exists_trim? htext (by simpa using hc)
      rw [hoffset] at hle hlt
      exact hcovers ⟨q, List.mem_filterMap.2 ⟨p, hp, hq⟩, hle, hlt⟩
  · rintro front c rest hv ⟨q, hq, hle, hlt⟩ hsep
    obtain ⟨p, hp, hpq⟩ := List.mem_filterMap.1 hq
    have hsep := hsep.separates (hmark c hsep.mem)
    obtain ⟨hlow, hhigh⟩ := stop_le_of_trim? hpq
    rcases hcut.locate hv with ⟨-, hnone⟩ | ⟨hnot, -⟩
    · rw [Nat.zero_add] at hnone
      exact hnone ⟨p, hp, by omega, by omega⟩
    · rw [hsep] at hnot
      cases hnot
  · refine List.Pairwise.filterMap _ ?_ hcut.pairwise_separated
    rintro p q ⟨front, c, rest, hv, hsep, hoffset, hlt⟩ p' hp' q' hq'
    have hp' := stop_le_of_trim? hp'
    have hq' := stop_le_of_trim? hq'
    exact ⟨front, c, rest, hv, by omega, by omega, .of_separates hsep⟩

/-- Escapes, quotes of both kinds, and a parenthesis that closes nothing. -/
def tangled : Text := " a\\, b , \"x,\\\"\" ) f(1, ')') ,, é\u00a0".toList

theorem segmentation_split_tangled :
    (∀ c ∈ ['\\', '"', '\'', '(', ')'], c ∉ [',']) ∧
      split [','] tangled =
        [⟨1, "a\\, b".toList⟩, ⟨9, "\"x,\\\"\" ) f(1, ')')".toList⟩, ⟨31, ['é']⟩] ∧
      Segmentation [','] tangled
        [⟨1, "a\\, b".toList⟩, ⟨9, "\"x,\\\"\" ) f(1, ')')".toList⟩, ⟨31, ['é']⟩] := by
  have hmarks : ∀ c ∈ ['\\', '"', '\'', '(', ')'], c ∉ [','] := by simp
  have hsplit : split [','] tangled =
      [⟨1, "a\\, b".toList⟩, ⟨9, "\"x,\\\"\" ) f(1, ')')".toList⟩, ⟨31, ['é']⟩] := by
    decide +kernel
  exact ⟨hmarks, hsplit, hsplit ▸ segmentation_split hmarks tangled⟩

end LessStyle.Part
