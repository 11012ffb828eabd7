import LessStyle.Proofs.Value.Mask
import LessStyle.Proofs.Value.Part

/-!
# What is blanked out

A mask is made by a search from left to right: at each character a function says whether something
begins there and how far it goes, and what is found becomes spaces (`blankBy`). `findAll` lists what is
found, as parts of the text. A byte of the result is a space if one of the parts holds it, and the byte
of the text else (`getElem?_utf8_blankBy`), so the parts say all that the search did. `literals` are the
parts of the mask of a value.
-/

namespace LessStyle

open Text

section Search

variable (width? : Char → Text → Option Nat)

/-- What `width?` finds in a text that begins at `offset`. -/
def findAll (offset : Nat) (s : Text) : List Part :=
  match s with
  | [] => []
  | c :: s =>
    match width? c s with
    | some n => ⟨offset, c :: s.take n⟩ :: findAll (offset + byteLength (c :: s.take n)) (s.drop n)
    | none => findAll (offset + c.utf8Size) s
termination_by s.length
decreasing_by all_goals simp only [List.length_drop, List.length_cons]; omega

/-- Something that `width?` finds, or would find if it looked there, begins at the byte `k` of a text
that begins at `offset`. -/
def BeginsAt (offset : Nat) (s : Text) (k : Nat) : Prop :=
  ∃ front c rest, s = front ++ c :: rest ∧ k = offset + byteLength front ∧
    (width? c rest).isSome = true

variable {width?} {offset : Nat} {s : Text}

theorem findAll_of_some {c : Char} {n : Nat} (h : width? c s = some n) :
    findAll width? offset (c :: s) =
      ⟨offset, c :: s.take n⟩ :: findAll width? (offset + byteLength (c :: s.take n)) (s.drop n) := by
  rw [findAll, h]

theorem findAll_of_none {c : Char} (h : width? c s = none) :
    findAll width? offset (c :: s) = findAll width? (offset + c.utf8Size) s := by
  rw [findAll, h]

/-! ## Parts that are found -/

theorem le_offset_of_mem_findAll {p : Part} (h : p ∈ findAll width? offset s) : offset ≤ p.offset := by
  fun_induction findAll width? offset s with
  | case1 => cases h
  | case2 offset c s n _ ih =>
    rcases List.mem_cons.1 h with rfl | h
    · exact Nat.le_refl _
    · exact Nat.le_trans (Nat.le_add_right _ _) (ih h)
  | case3 offset c s _ ih => exact Nat.le_trans (Nat.le_add_right _ _) (ih h)

theorem offset_lt_stop_of_mem_findAll {p : Part} (h : p ∈ findAll width? offset s) :
    p.offset < p.stop := by
  fun_induction findAll width? offset s with
  | case1 => cases h
  | case2 offset c s n _ ih =>
    rcases List.mem_cons.1 h with rfl | h
    · have hsize := c.utf8Size_pos
      rw [Part.stop, byteLength_cons]
      omega
    · exact ih h
  | case3 offset c s _ ih => exact ih h

theorem not_covers_findAll {k : Nat} (h : k < offset) : ¬ Part.Covers (findAll width? offset s) k := by
  rintro ⟨p, hp, hle, -⟩
  exact absurd (le_offset_of_mem_findAll hp) (by omega)

/-- Behind the first part only the others count. -/
theorem covers_cons_of_le {p : Part} {ps : List Part} {k : Nat} (h : p.stop ≤ k) :
    Part.Covers (p :: ps) k ↔ Part.Covers ps k := by
  constructor
  · rintro ⟨q, hq, hle, hlt⟩
    rcases List.mem_cons.1 hq with rfl | hq
    · omega
    · exact ⟨q, hq, hle, hlt⟩
  · rintro ⟨q, hq, hholds⟩
    exact ⟨q, List.mem_cons_of_mem p hq, hholds⟩

/-- **A byte is blanked out exactly if it is in a part that is found.** -/
theorem getElem?_utf8_blankBy (width? : Char → Text → Option Nat) (offset : Nat) (s : Text) (k : Nat) :
    (utf8 (blankBy width? s))[k]? =
      if Part.Covers (findAll width? offset s) (offset + k) then some (code ' ') else (utf8 s)[k]? := by
  fun_induction findAll width? offset s generalizing k with
  | case1 offset =>
    rw [blankBy, if_neg (by rintro ⟨p, hp, -⟩; cases hp)]
  | case2 offset c s n h ih =>
    have hsplit : c :: s = (c :: s.take n) ++ s.drop n := by
      rw [List.cons_append, List.take_append_drop]
    have hspaces : (List.replicate (byteLength (c :: s.take n)) (code ' ')).length =
        byteLength (c :: s.take n) := List.length_replicate
    rw [blankBy, h, utf8_append, spacesFor, utf8_replicate_space]
    by_cases hk : k < byteLength (c :: s.take n)
    · rw [List.getElem?_append_left (by omega), List.getElem?_replicate_of_lt hk, if_pos]
      exact ⟨_, List.mem_cons_self, Nat.le_add_right _ _, Nat.add_lt_add_left hk _⟩
    · have hle : byteLength (c :: s.take n) ≤ k := Nat.le_of_not_lt hk
      have hoffset : offset + byteLength (c :: s.take n) + (k - byteLength (c :: s.take n)) =
          offset + k := by omega
      simp only [covers_cons_of_le
        (show Part.stop ⟨offset, c :: s.take n⟩ ≤ offset + k from Nat.add_le_add_left hle _)]
      rw [List.getElem?_append_right (by omega), hspaces, ih, hoffset, hsplit, utf8_append,
        List.getElem?_append_right (by rwa [length_utf8]), length_utf8]
  | case3 offset c s h ih =>
    have hsize : (String.utf8EncodeChar c).length = c.utf8Size := String.length_utf8EncodeChar c
    rw [blankBy, h, utf8_cons, utf8_cons]
    by_cases hk : k < c.utf8Size
    · rw [List.getElem?_append_left (by omega), if_neg (not_covers_findAll (by omega)),
        List.getElem?_append_left (by omega)]
    · have hoffset : offset + c.utf8Size + (k - c.utf8Size) = offset + k := by omega
      rw [List.getElem?_append_right (by omega), hsize, ih, hoffset,
        List.getElem?_append_right (by omega), hsize]

/-- **A word in what is left stands clear of what is blanked out.** It has no spaces. -/
theorem clear_of_blankBy {front word rest : Text} (h : blankBy width? s = front ++ (word ++ rest))
    (hspace : ' ' ∉ word) (hne : word ≠ []) :
    ∀ p ∈ findAll width? offset s,
      offset + byteLength front + byteLength word ≤ p.offset ∨ p.stop ≤ offset + byteLength front := by
  intro p hp
  by_contra hmeets
  rw [not_or, Nat.not_le, Nat.not_le] at hmeets
  obtain ⟨hstart, hstop⟩ := hmeets
  have hword : 0 < byteLength word := by
    obtain ⟨c, word, rfl⟩ := List.exists_cons_of_ne_nil hne
    have hsize := c.utf8Size_pos
    rw [byteLength_cons]
    omega
  have hholds := offset_lt_stop_of_mem_findAll hp
  have hlow := le_offset_of_mem_findAll hp
  -- a byte of the word that the part holds
  obtain ⟨k, hk, hcovers⟩ : ∃ k, k < byteLength word ∧
      Part.Covers (findAll width? offset s) (offset + (byteLength front + k)) := by
    by_cases hle : p.offset ≤ offset + byteLength front
    · exact ⟨0, hword, p, hp, by omega, by omega⟩
    · exact ⟨p.offset - offset - byteLength front, by omega, p, hp, by omega, by omega⟩
  have hbyte := getElem?_utf8_blankBy width? offset s (byteLength front + k)
  rw [if_pos hcovers, h, utf8_append, List.getElem?_append_right (by rw [length_utf8]; omega),
    length_utf8, Nat.add_sub_cancel_left, utf8_append,
    List.getElem?_append_left (by rwa [length_utf8])] at hbyte
  -- a space is no byte of a word without spaces
  have hmem := List.mem_of_getElem? hbyte
  obtain ⟨c, hc, hcode⟩ := List.mem_flatMap.1 hmem
  have hother : (c == ' ') = false := beq_eq_false_iff_ne.2 fun heq => hspace (heq ▸ hc)
  have hfalse := (sees_beq (d := ' ') (by decide)).eq_false hother hcode
  simp at hfalse

/-! ## Where something begins -/

/-- Behind a text, what begins is what begins in the text behind. -/
theorem beginsAt_append {lead : Text} {k : Nat} (h : offset + byteLength lead ≤ k) :
    BeginsAt width? offset (lead ++ s) k ↔ BeginsAt width? (offset + byteLength lead) s k := by
  constructor
  · rintro ⟨front, c, rest, hs, rfl, hc⟩
    rcases append_eq_append_cons_cases hs with ⟨more, rfl, -⟩ | ⟨more, rfl, rfl⟩
    · have hsize := c.utf8Size_pos
      simp only [byteLength_append, byteLength_cons] at h
      omega
    · exact ⟨more, c, rest, rfl, by rw [byteLength_append, Nat.add_assoc], hc⟩
  · rintro ⟨front, c, rest, rfl, rfl, hc⟩
    exact ⟨lead ++ front, c, rest, by simp, by rw [byteLength_append, Nat.add_assoc], hc⟩

theorem beginsAt_here {c : Char} :
    BeginsAt width? offset (c :: s) offset ↔ (width? c s).isSome = true := by
  constructor
  · rintro ⟨front, d, rest, hs, hoffset, hd⟩
    cases front with
    | nil =>
      obtain ⟨rfl, rfl⟩ := List.cons.inj hs
      exact hd
    | cons e front =>
      have hsize := e.utf8Size_pos
      rw [byteLength_cons] at hoffset
      omega
  · intro h
    exact ⟨[], c, s, rfl, rfl, h⟩

theorem beginsAt_cons {c : Char} {k : Nat} (h : offset + c.utf8Size ≤ k) :
    BeginsAt width? offset (c :: s) k ↔ BeginsAt width? (offset + c.utf8Size) s k :=
  @beginsAt_append width? offset s [c] k h

/-- Nothing begins inside a character. -/
theorem le_of_beginsAt_cons {c : Char} {k : Nat} (h : BeginsAt width? offset (c :: s) k)
    (hk : k ≠ offset) : offset + c.utf8Size ≤ k := by
  obtain ⟨front, d, rest, hs, rfl, -⟩ := h
  cases front with
  | nil => exact absurd rfl hk
  | cons e front =>
    obtain ⟨rfl, -⟩ := List.cons.inj hs
    rw [byteLength_cons]
    omega

/-- The search passes over a text in which nothing begins. -/
theorem findAll_append_of_not_beginsAt {lead : Text}
    (h : ∀ k, k < offset + byteLength lead → ¬ BeginsAt width? offset (lead ++ s) k) :
    findAll width? offset (lead ++ s) = findAll width? (offset + byteLength lead) s := by
  induction lead generalizing offset with
  | nil => rfl
  | cons c lead ih =>
    have hsize := c.utf8Size_pos
    rw [byteLength_cons] at h
    have hnone : width? c (lead ++ s) = none := by
      simpa using fun hsome => h offset (by omega) (beginsAt_here.2 hsome)
    rw [List.cons_append, findAll_of_none hnone, ih, byteLength_cons, Nat.add_assoc]
    intro k hk hbegins
    have hle : offset + c.utf8Size ≤ k := by
      obtain ⟨front, -, -, -, rfl, -⟩ := hbegins
      omega
    exact h k (by omega) ((beginsAt_cons hle).2 hbegins)

/-- Where something begins in a text, the search finds a part that begins in it. -/
theorem exists_mem_findAll_of_beginsAt {lead : Text} {k : Nat}
    (h : BeginsAt width? offset (lead ++ s) k) (hk : k < offset + byteLength lead) :
    ∃ p ∈ findAll width? offset (lead ++ s), p.offset < offset + byteLength lead := by
  induction lead generalizing offset with
  | nil =>
    obtain ⟨front, -, -, -, rfl, -⟩ := h
    rw [byteLength_nil] at hk
    omega
  | cons c lead ih =>
    have hsize := c.utf8Size_pos
    rw [byteLength_cons] at hk ⊢
    rw [List.cons_append] at h ⊢
    cases hwidth : width? c (lead ++ s) with
    | some n =>
      rw [findAll_of_some hwidth]
      exact ⟨_, List.mem_cons_self, show offset < _ by omega⟩
    | none =>
      have hne : k ≠ offset := by
        rintro rfl
        rw [beginsAt_here, hwidth] at h
        cases h
      have htail := (beginsAt_cons (le_of_beginsAt_cons h hne)).1 h
      obtain ⟨p, hp, hlt⟩ := ih htail (by omega)
      rw [findAll_of_none hwidth]
      exact ⟨p, hp, by omega⟩

end Search

/-- The literals of a value, which its mask blanks out. -/
def literals (v : Text) : List Part := findAll literalWidth? 0 v

/-- The mask of a value, byte by byte. -/
theorem getElem?_utf8_mask (v : Text) (k : Nat) :
    (utf8 (mask v))[k]? = if Part.Covers (literals v) k then some (code ' ') else (utf8 v)[k]? := by
  have h := getElem?_utf8_blankBy literalWidth? 0 v k
  rwa [← mask_eq_blankBy, Nat.zero_add] at h

end LessStyle
