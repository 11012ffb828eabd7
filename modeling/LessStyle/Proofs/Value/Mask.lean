import LessStyle.Proofs.Text.Utf8
import LessStyle.Proofs.Value.Literal

/-!
# Masks

A mask replaces some characters of a value by as many spaces as they have bytes, and leaves the others
(`Blanking`). That alone fixes its length and the place of every character that is left. What a mask
blanks out are the literals (`Outside.exists_mask`), and the spaces in their place begin no new one,
so nothing in a mask begins a literal (`literalWidth?_of_mask`) and a mask is its own mask.
-/

namespace LessStyle

open Text

/-! ## Blanking characters out -/

/-- The second text is the first one with some characters blanked out, each by a space for every
byte. -/
inductive Blanking : Text → Text → Prop where
  | nil : Blanking [] []
  | keep (c : Char) {s t : Text} (tail : Blanking s t) : Blanking (c :: s) (c :: t)
  | blank (c : Char) {s t : Text} (tail : Blanking s t) :
      Blanking (c :: s) (List.replicate c.utf8Size ' ' ++ t)

theorem byteLength_replicate_space (n : Nat) : byteLength (List.replicate n ' ') = n := by
  induction n with
  | zero => rfl
  | succ n ih =>
    rw [List.replicate_succ, byteLength_cons, ih, show ' '.utf8Size = 1 by decide, Nat.add_comm]

theorem utf8_replicate_space (n : Nat) :
    utf8 (List.replicate n ' ') = List.replicate n (code ' ') := by
  induction n with
  | zero => rfl
  | succ n ih =>
    rw [List.replicate_succ, utf8_cons, ih, encode_of_lt (by decide), List.replicate_succ]
    rfl

namespace Blanking

variable {s t : Text}

theorem byteLength_eq (h : Blanking s t) : byteLength t = byteLength s := by
  induction h with
  | nil => rfl
  | keep c _ ih => rw [byteLength_cons, byteLength_cons, ih]
  | blank c _ ih => rw [byteLength_append, byteLength_replicate_space, byteLength_cons, ih]

/-- Every byte stays or becomes a space. -/
theorem getElem?_utf8 (h : Blanking s t) (i : Nat) :
    (utf8 t)[i]? = (utf8 s)[i]? ∨ (utf8 t)[i]? = some (code ' ') := by
  induction h generalizing i with
  | nil => exact .inl rfl
  | keep c _ ih =>
    rw [utf8_cons, utf8_cons]
    by_cases hi : i < (String.utf8EncodeChar c).length
    · rw [List.getElem?_append_left hi, List.getElem?_append_left hi]
      exact .inl rfl
    · rw [List.getElem?_append_right (Nat.le_of_not_lt hi),
        List.getElem?_append_right (Nat.le_of_not_lt hi)]
      exact ih _
  | blank c _ ih =>
    have hsize : (List.replicate c.utf8Size (code ' ')).length =
        (String.utf8EncodeChar c).length := by
      rw [List.length_replicate, String.length_utf8EncodeChar]
    rw [utf8_append, utf8_replicate_space, utf8_cons]
    by_cases hi : i < (String.utf8EncodeChar c).length
    · rw [List.getElem?_append_left (hsize ▸ hi), List.getElem?_replicate_of_lt
        (by rwa [String.length_utf8EncodeChar] at hi)]
      exact .inr rfl
    · rw [List.getElem?_append_right (hsize ▸ Nat.le_of_not_lt hi),
        List.getElem?_append_right (Nat.le_of_not_lt hi), hsize]
      exact ih _

/-- A text that is blanked out as a whole. -/
theorem spaces (u : Text) (h : Blanking s t) : Blanking (u ++ s) (spacesFor u ++ t) := by
  induction u with
  | nil => exact h
  | cons c u ih =>
    rw [spacesFor, byteLength_cons, ← List.replicate_append_replicate, List.append_assoc]
    exact .blank c ih

/-- A character other than a space stands in both texts at the same offset. -/
theorem exists_of_ne_space (h : Blanking s t) {front rest : Text} {c : Char}
    (ht : t = front ++ c :: rest) (hc : c ≠ ' ') :
    ∃ front' rest', s = front' ++ c :: rest' ∧ Blanking front' front ∧ Blanking rest' rest := by
  induction h generalizing front with
  | nil => simp at ht
  | @keep d s t tail ih =>
    cases front with
    | nil =>
      obtain ⟨rfl, rfl⟩ := List.cons.inj ht
      exact ⟨[], s, rfl, .nil, tail⟩
    | cons e front =>
      obtain ⟨rfl, htail⟩ := List.cons.inj ht
      obtain ⟨front', rest', rfl, hfront, hrest⟩ := ih htail
      exact ⟨d :: front', rest', rfl, .keep d hfront, hrest⟩
  | @blank d s t tail ih =>
    -- the character does not stand among the spaces
    rcases List.append_eq_append_iff.1 ht with ⟨more, hfront, ht⟩ | ⟨more, hspaces, hrest⟩
    · obtain ⟨front', rest', rfl, hfront', hrest⟩ := ih ht
      exact ⟨d :: front', rest', rfl, hfront ▸ .blank d hfront', hrest⟩
    · cases more with
      | nil =>
        rw [List.append_nil] at hspaces
        have htail : t = [] ++ c :: rest := hrest.symm
        obtain ⟨front', rest', rfl, hfront', hrest⟩ := ih htail
        have hfront : Blanking (d :: front') front := by
          simpa [hspaces] using Blanking.blank d hfront'
        exact ⟨d :: front', rest', rfl, hfront, hrest⟩
      | cons e more =>
        obtain ⟨rfl, -⟩ := List.cons.inj hrest
        have hmem : c ∈ List.replicate d.utf8Size ' ' := by rw [hspaces]; simp
        exact absurd (List.eq_of_mem_replicate hmem) hc

/-- What begins the second text and has no spaces begins the first one. -/
theorem isPrefix (h : Blanking s t) {w : Text} (hw : ' ' ∉ w) (ht : w <+: t) : w <+: s := by
  induction w generalizing s t with
  | nil => exact List.nil_prefix
  | cons d w ih =>
    rw [List.mem_cons, not_or] at hw
    obtain ⟨hd, hw⟩ := hw
    cases h with
    | nil => exact absurd ht (by simp)
    | keep c tail =>
      obtain ⟨rfl, htail⟩ := List.cons_prefix_cons.1 ht
      exact List.cons_prefix_cons.2 ⟨rfl, ih tail hw htail⟩
    | blank c tail =>
      obtain ⟨n, hn⟩ := Nat.exists_eq_succ_of_ne_zero (Nat.ne_of_gt c.utf8Size_pos)
      rw [hn, List.replicate_succ, List.cons_append] at ht
      exact absurd (List.cons_prefix_cons.1 ht).1.symm hd

end Blanking

/-- The text with everything blanked out that begins at a character and goes on as far as `width?`
says. -/
def blankBy (width? : Char → Text → Option Nat) (s : Text) : Text :=
  match s with
  | [] => []
  | c :: s =>
    match width? c s with
    | some n => spacesFor (c :: s.take n) ++ blankBy width? (s.drop n)
    | none => c :: blankBy width? s
termination_by s.length
decreasing_by all_goals simp only [List.length_drop, List.length_cons]; omega

theorem blanking_blankBy (width? : Char → Text → Option Nat) (s : Text) :
    Blanking s (blankBy width? s) := by
  fun_induction blankBy width? s with
  | case1 => exact .nil
  | case2 c s n h ih =>
    have hsplit : c :: s = (c :: s.take n) ++ s.drop n := by
      rw [List.cons_append, List.take_append_drop]
    rw [hsplit]
    exact ih.spaces _
  | case3 c s h ih => exact .keep c ih

/-! ## Masks -/

theorem mask_eq_blankBy (v : Text) : mask v = blankBy literalWidth? v := by
  fun_induction mask v with
  | case1 => rw [blankBy]
  | case2 c s n h ih => rw [blankBy, h, ih]
  | case3 c s h ih => rw [blankBy, h, ih]

theorem blanking_mask (v : Text) : Blanking v (mask v) := by
  rw [mask_eq_blankBy]
  exact blanking_blankBy literalWidth? v

theorem literalWidth?_eq_none_iff {c : Char} {s : Text} :
    literalWidth? c s = none ↔ isQuote c = false ∧ startsUrl (c :: s) = false := by
  rw [literalWidth?]
  cases isQuote c <;> cases startsUrl (c :: s) <;> simp

/-- A mask begins with `url(` only where the value does. -/
theorem startsUrl_of_mask {c : Char} {s : Text} (h : startsUrl (c :: mask s) = true) :
    startsUrl (c :: s) = true := by
  rw [startsUrl, sameIgnoringCase, beq_iff_eq] at h
  have hlen : ((c :: mask s).take 4).length = 4 := by simpa using congrArg List.length h
  have hspace : ' ' ∉ (c :: mask s).take 4 := by
    intro hmem
    have hlower := List.mem_map_of_mem (f := Char.toLower) hmem
    rw [h] at hlower
    exact absurd hlower (by decide)
  have hprefix := (Blanking.keep c (blanking_mask s)).isPrefix hspace (List.take_prefix 4 _)
  have htake := List.prefix_iff_eq_take.1 hprefix
  rw [hlen] at htake
  rw [startsUrl, sameIgnoringCase, beq_iff_eq, ← htake, h]

/-- No literal begins in a mask. -/
theorem literalWidth?_of_mask {v front rest : Text} {c : Char} (h : mask v = front ++ c :: rest) :
    literalWidth? c rest = none := by
  fun_induction mask v generalizing front with
  | case1 => simp at h
  | case2 d s n _ ih =>
    rcases List.append_eq_append_iff.1 h with ⟨more, -, hmask⟩ | ⟨more, hspaces, hrest⟩
    · exact ih hmask
    · cases more with
      | nil =>
        have hmask : mask (s.drop n) = [] ++ c :: rest := hrest.symm
        exact ih hmask
      | cons e more =>
        obtain ⟨rfl, -⟩ := List.cons.inj hrest
        have hmem : c ∈ List.replicate (byteLength (d :: s.take n)) ' ' := by
          rw [← spacesFor, hspaces]
          simp
        obtain rfl := List.eq_of_mem_replicate hmem
        exact literalWidth?_of_isWhite (by decide) rest
  | case3 d s hd ih =>
    cases front with
    | cons e front => exact ih (List.cons.inj h).2
    | nil =>
      obtain ⟨rfl, rfl⟩ := List.cons.inj h
      obtain ⟨hquote, hurl⟩ := literalWidth?_eq_none_iff.1 hd
      refine literalWidth?_eq_none_iff.2 ⟨hquote, ?_⟩
      rw [← Bool.not_eq_true] at hurl ⊢
      exact fun hmask => hurl (startsUrl_of_mask hmask)

/-- A text in which no literal begins is its own mask. -/
theorem mask_eq_self {s : Text}
    (h : ∀ front c rest, s = front ++ c :: rest → literalWidth? c rest = none) : mask s = s := by
  induction s with
  | nil => exact mask_nil
  | cons c s ih =>
    rw [mask_of_none (h [] c s rfl), ih fun front d rest hs => h (c :: front) d rest (by rw [hs]; rfl)]

/-- Outside literals the mask of a value goes on with the mask of what is left. -/
theorem Outside.exists_mask {v rest : Text} (h : Outside v rest) :
    ∃ front front', v = front ++ rest ∧ mask v = front' ++ mask rest ∧ Blanking front front' := by
  induction h with
  | here s => exact ⟨[], [], rfl, rfl, .nil⟩
  | @char c s rest plain _ ih =>
    obtain ⟨front, front', rfl, hmask, hfront⟩ := ih
    exact ⟨c :: front, c :: front', rfl, by rw [mask_of_none plain, hmask]; rfl, .keep c hfront⟩
  | @literal c s rest n width _ ih =>
    obtain ⟨front, front', hdrop, hmask, hfront⟩ := ih
    refine ⟨c :: s.take n ++ front, spacesFor (c :: s.take n) ++ front', ?_, ?_, hfront.spaces _⟩
    · rw [List.append_assoc, ← hdrop, List.cons_append, List.take_append_drop]
    · rw [mask_of_some width, hmask, List.append_assoc]

/-- **A mask blanks literals out and keeps offsets.** It has as many bytes as the value, each the byte
of the value or a space, and only whole characters are blanked out, so a character other than a space
stands where it stands in the value. There is no quote in a mask, no `url(` in upper or lower case, and
a mask is its own mask. What is blanked out are the literals: at a place outside them a character stays
if it begins none, and else the literal becomes spaces as a whole. -/
theorem mask_blanks (v : Text) :
    byteLength (mask v) = byteLength v ∧
    (∀ i : Nat, (utf8 (mask v))[i]? = (utf8 v)[i]? ∨ (utf8 (mask v))[i]? = some (code ' ')) ∧
    Blanking v (mask v) ∧
    (∀ front c rest, mask v = front ++ c :: rest → c ≠ ' ' →
      ∃ front' rest', v = front' ++ c :: rest' ∧ byteLength front' = byteLength front) ∧
    ('"' ∉ mask v ∧ '\'' ∉ mask v) ∧
    (∀ front word rest, mask v = front ++ (word ++ rest) →
      sameIgnoringCase word ['u', 'r', 'l', '('] = false) ∧
    mask (mask v) = mask v ∧
    ∀ front c rest, v = front ++ c :: rest → Outside v (c :: rest) →
      ∃ front', byteLength front' = byteLength front ∧
        mask v = front' ++
          match literalWidth? c rest with
          | some n => spacesFor (c :: rest.take n) ++ mask (rest.drop n)
          | none => c :: mask rest := by
  have hnone : ∀ {front rest : Text} {c : Char}, mask v = front ++ c :: rest →
      isQuote c = false ∧ startsUrl (c :: rest) = false :=
    fun h => literalWidth?_eq_none_iff.1 (literalWidth?_of_mask h)
  have hquote : ∀ c ∈ mask v, isQuote c = false := by
    intro c hc
    obtain ⟨front, rest, h⟩ := List.append_of_mem hc
    exact (hnone h).1
  refine ⟨(blanking_mask v).byteLength_eq, (blanking_mask v).getElem?_utf8, blanking_mask v, ?_, ?_,
    ?_, ?_, ?_⟩
  · intro front c rest h hc
    obtain ⟨front', rest', hv, hfront, -⟩ := (blanking_mask v).exists_of_ne_space h hc
    exact ⟨front', rest', hv, hfront.byteLength_eq.symm⟩
  · exact ⟨fun h => absurd (hquote _ h) (by decide), fun h => absurd (hquote _ h) (by decide)⟩
  · intro front word rest h
    rw [← Bool.not_eq_true]
    intro hword
    have hlen : word.length = 4 := by
      rw [sameIgnoringCase, beq_iff_eq] at hword
      simpa using congrArg List.length hword
    obtain ⟨c, word, rfl⟩ := List.exists_cons_of_length_eq_add_one hlen
    have hurl : startsUrl (c :: word ++ rest) = false := (hnone h).2
    rw [startsUrl, ← hlen, List.take_left, hword] at hurl
    cases hurl
  · exact mask_eq_self fun front c rest h => literalWidth?_of_mask h
  · intro front c rest hv houtside
    obtain ⟨before, front', hbefore, hmask, hfront⟩ := houtside.exists_mask
    obtain rfl := List.append_cancel_right (hv.symm.trans hbefore)
    refine ⟨front', hfront.byteLength_eq, ?_⟩
    rw [hmask]
    cases hwidth : literalWidth? c rest with
    | some n => rw [mask_of_some hwidth]
    | none => rw [mask_of_none hwidth]

end LessStyle
