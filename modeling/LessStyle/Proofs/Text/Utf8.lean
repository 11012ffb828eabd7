import LessStyle.Text.Basic

/-!
# Texts and their bytes

A character below 128 is one byte, its `code`; all bytes of any other character are 128 or more. So a
test for characters below 128 gives the same answers on the bytes as on the characters (`Sees`), and a
search for such a character among the bytes ends at a character. Every search lemma of this module
has this form: an offset found among the bytes is the byte length of the text before the character
found.
-/

namespace LessStyle.Text

/-! ## The form -/

@[simp] theorem utf8_nil : utf8 [] = [] := rfl

theorem utf8_cons (c : Char) (s : Text) : utf8 (c :: s) = String.utf8EncodeChar c ++ utf8 s := rfl

@[simp] theorem utf8_append (s t : Text) : utf8 (s ++ t) = utf8 s ++ utf8 t := List.flatMap_append

@[simp] theorem length_utf8 (s : Text) : (utf8 s).length = byteLength s := by
  induction s with
  | nil => rfl
  | cons c s ih =>
    rw [utf8_cons, List.length_append, String.length_utf8EncodeChar, ih, byteLength_cons]

theorem length_le_byteLength (s : Text) : s.length ≤ byteLength s := by
  induction s with
  | nil => exact Nat.le_refl 0
  | cons c s ih =>
    have := c.utf8Size_pos
    rw [List.length_cons, byteLength_cons]
    omega

theorem drop_utf8_append (s t : Text) : (utf8 (s ++ t)).drop (byteLength s) = utf8 t := by
  rw [utf8_append, ← length_utf8, List.drop_left]

theorem take_utf8_append (s t : Text) : (utf8 (s ++ t)).take (byteLength s) = utf8 s := by
  rw [utf8_append, ← length_utf8, List.take_left]

theorem splitBytes?_append (s t : Text) : splitBytes? (byteLength s) (s ++ t) = some (s, t) := by
  induction s with
  | nil => cases t <;> rfl
  | cons c s ih =>
    have hc := c.utf8Size_pos
    obtain ⟨n, hn⟩ := Nat.exists_eq_succ_of_ne_zero
      (show byteLength (c :: s) ≠ 0 by rw [byteLength_cons]; omega)
    have hs : n + 1 - c.utf8Size = byteLength s := by rw [byteLength_cons] at hn; omega
    rw [hn, List.cons_append, splitBytes?, if_pos (by rw [byteLength_cons] at hn; omega), hs, ih]
    rfl

/-- A slice from one character to another. -/
theorem sliceBytes?_append (s t u : Text) :
    sliceBytes? (byteLength s) (byteLength s + byteLength t) (s ++ (t ++ u)) = some t := by
  rw [sliceBytes?, ← byteLength_append, ← List.append_assoc, splitBytes?_append]
  simp only [splitBytes?_append]
  rfl

theorem sliceBytes?_left (s t : Text) : sliceBytes? 0 (byteLength s) (s ++ t) = some s := by
  have h := sliceBytes?_append [] s t
  rwa [byteLength_nil, Nat.zero_add, List.nil_append] at h

theorem sliceBytes?_right (s t : Text) :
    sliceBytes? (byteLength s) (byteLength (s ++ t)) (s ++ t) = some t := by
  have h := sliceBytes?_append s t []
  rwa [← byteLength_append, List.append_nil] at h

/-! ## Single bytes -/

/-- The byte of a character below 128. -/
def code (c : Char) : UInt8 := c.toNat.toUInt8

/-- The byte of one of the characters. -/
def isOneOf (cs : List Char) (b : UInt8) : Bool := cs.any (code · == b)

theorem encode_of_lt {c : Char} (h : c.toNat < 128) : String.utf8EncodeChar c = [code c] := by
  have h7 : c.val.toNat ≤ 0x7f := Nat.le_of_lt_succ h
  rw [String.utf8EncodeChar, if_pos h7]
  rfl

theorem eq_code {c : Char} {b : UInt8} {bs : List UInt8} (hb : String.utf8EncodeChar c = b :: bs)
    (h : c.toNat < 128) : b = code c := by
  rw [encode_of_lt h] at hb
  exact (List.cons.inj hb).1.symm

theorem le_of_mem_encode {c : Char} (h : 128 ≤ c.toNat) {b : UInt8}
    (hb : b ∈ String.utf8EncodeChar c) : 128 ≤ b.toNat := by
  have h7 : ¬c.val.toNat ≤ 0x7f := Nat.not_le.2 h
  unfold String.utf8EncodeChar at hb
  dsimp only at hb
  rw [if_neg h7] at hb
  split at hb
  · simp only [List.mem_cons, List.not_mem_nil, or_false] at hb
    rcases hb with rfl | rfl <;> simp [UInt8.toNat_ofNat'] <;> omega
  split at hb
  · simp only [List.mem_cons, List.not_mem_nil, or_false] at hb
    rcases hb with rfl | rfl | rfl <;> simp [UInt8.toNat_ofNat'] <;> omega
  · simp only [List.mem_cons, List.not_mem_nil, or_false] at hb
    rcases hb with rfl | rfl | rfl | rfl <;> simp [UInt8.toNat_ofNat'] <;> omega

theorem toNat_code {c : Char} (h : c.toNat < 128) : (code c).toNat = c.toNat := by
  rw [code, Nat.toUInt8, UInt8.toNat_ofNat', Nat.mod_eq_of_lt (by omega)]

theorem code_inj {c d : Char} (hc : c.toNat < 128) (hd : d.toNat < 128) :
    code c = code d ↔ c = d := by
  constructor
  · intro h
    apply Char.toNat_inj.1
    rw [← toNat_code hc, ← toNat_code hd, h]
  · rintro rfl
    rfl

/-- The test `f` of bytes sees the characters that satisfy `g`, which are all below 128. -/
structure Sees (f : UInt8 → Bool) (g : Char → Bool) : Prop where
  code : ∀ {c : Char}, c.toNat < 128 → f (code c) = g c
  byte : ∀ {b : UInt8}, 128 ≤ b.toNat → f b = false
  char : ∀ {c : Char}, 128 ≤ c.toNat → g c = false

theorem sees_beq {d : Char} (hd : d.toNat < 128) : Sees (· == code d) (· == d) where
  code hc := Bool.eq_iff_iff.2 (by simp only [beq_iff_eq]; exact code_inj hc hd)
  byte hb := by
    rw [beq_eq_false_iff_ne]
    rintro rfl
    rw [toNat_code hd] at hb
    omega
  char hc := beq_eq_false_iff_ne.2 fun hcd => Nat.not_lt.2 hc (hcd ▸ hd)

theorem sees_isOneOf {cs : List Char} (hcs : cs.all (·.toNat < 128) = true) :
    Sees (isOneOf cs) cs.contains where
  code hc := by
    rw [isOneOf, List.contains_eq_any_beq, Bool.eq_iff_iff, List.any_eq_true, List.any_eq_true]
    refine exists_congr fun d => and_congr_right fun hd => ?_
    have hlt := of_decide_eq_true (List.all_eq_true.1 hcs d hd)
    rw [beq_iff_eq, beq_iff_eq, code_inj hlt hc, eq_comm]
  byte hb := by
    rw [isOneOf, List.any_eq_false]
    intro d hd
    rw [beq_iff_eq]
    rintro rfl
    have hlt := of_decide_eq_true (List.all_eq_true.1 hcs d hd)
    rw [toNat_code hlt] at hb
    omega
  char hc := by
    rw [← Bool.not_eq_true, List.contains_iff_mem]
    intro hm
    have := of_decide_eq_true (List.all_eq_true.1 hcs _ hm)
    omega

namespace Sees

variable {f : UInt8 → Bool} {g : Char → Bool}

/-- The first byte of a character answers as the character does. -/
theorem head (h : Sees f g) {c : Char} {b : UInt8} {bs : List UInt8}
    (hb : String.utf8EncodeChar c = b :: bs) : f b = g c := by
  by_cases hc : c.toNat < 128
  · rw [eq_code hb hc]
    exact h.code hc
  · have hc' : 128 ≤ c.toNat := Nat.le_of_not_lt hc
    rw [h.char hc', h.byte (le_of_mem_encode hc' (by rw [hb]; exact List.mem_cons_self))]

/-- No byte of a character that fails `g` satisfies `f`. -/
theorem eq_false (h : Sees f g) {c : Char} (hg : g c = false) {b : UInt8}
    (hb : b ∈ String.utf8EncodeChar c) : f b = false := by
  by_cases hc : c.toNat < 128
  · rw [encode_of_lt hc, List.mem_singleton] at hb
    rw [hb, h.code hc, hg]
  · exact h.byte (le_of_mem_encode (Nat.le_of_not_lt hc) hb)

/-- A character that satisfies `g` is one byte. -/
theorem encode (h : Sees f g) {c : Char} (hg : g c = true) :
    String.utf8EncodeChar c = [Text.code c] := by
  refine encode_of_lt (Nat.lt_of_not_le fun hc => ?_)
  rw [h.char hc] at hg
  cases hg

theorem utf8Size (h : Sees f g) {c : Char} (hg : g c = true) : c.utf8Size = 1 := by
  rw [← String.length_utf8EncodeChar, h.encode hg]
  rfl

theorem code_eq_true (h : Sees f g) {c : Char} (hg : g c = true) : f (Text.code c) = true := by
  refine (h.code (Nat.lt_of_not_le fun hc => ?_)).trans hg
  rw [h.char hc] at hg
  cases hg

theorem findIdx?_utf8 (h : Sees f g) (s : Text) :
    (utf8 s).findIdx? f = (s.findIdx? g).map fun k => byteLength (s.take k) := by
  induction s with
  | nil => rfl
  | cons c s ih =>
    rw [utf8_cons, List.findIdx?_cons]
    cases hg : g c with
    | true =>
      rw [h.encode hg, List.singleton_append, List.findIdx?_cons, h.code_eq_true hg]
      rfl
    | false =>
      have hnone : (String.utf8EncodeChar c).findIdx? f = none :=
        List.findIdx?_eq_none_iff.2 fun b hb => h.eq_false hg hb
      rw [List.findIdx?_append, hnone, Option.none_or, ih, String.length_utf8EncodeChar]
      cases s.findIdx? g with
      | none => rfl
      | some k => simp [Nat.add_comm]

/-- Past the character that is found. -/
theorem byteLength_take_succ (h : Sees f g) {s : Text} {k : Nat} (hk : s.findIdx? g = some k) :
    byteLength (s.take (k + 1)) = byteLength (s.take k) + 1 := by
  obtain ⟨hlt, hg, -⟩ := List.findIdx?_eq_some_iff_getElem.1 hk
  rw [← List.take_append_getElem hlt, byteLength_append, byteLength_cons, h.utf8Size hg,
    byteLength_nil]

theorem takeWhile_utf8 (h : Sees f g) (s : Text) :
    (utf8 s).takeWhile f = utf8 (s.takeWhile g) := by
  induction s with
  | nil => rfl
  | cons c s ih =>
    cases hg : g c with
    | true =>
      rw [utf8_cons, h.encode hg, List.singleton_append, List.takeWhile_cons_of_pos
        (h.code_eq_true hg), ih, List.takeWhile_cons_of_pos hg, utf8_cons, h.encode hg,
        List.singleton_append]
    | false =>
      obtain ⟨b, bs, hb⟩ := List.exists_cons_of_ne_nil (String.utf8EncodeChar_ne_nil (c := c))
      rw [utf8_cons, hb, List.cons_append, List.takeWhile_cons_of_neg (by simp [h.head hb, hg]),
        List.takeWhile_cons_of_neg (by simp [hg])]
      rfl

theorem any_utf8 (h : Sees f g) (s : Text) : (utf8 s).any f = s.any g := by
  induction s with
  | nil => rfl
  | cons c s ih =>
    rw [utf8_cons, List.any_append, ih, List.any_cons]
    cases hg : g c with
    | true => simp [h.encode hg, h.code_eq_true hg]
    | false =>
      rw [List.any_eq_false.2 fun b hb => by simp [h.eq_false hg hb]]

/-- All characters of a text satisfy `g`, so they are one byte each. -/
theorem byteLength_eq (h : Sees f g) {s : Text} (hs : ∀ c ∈ s, g c = true) :
    byteLength s = s.length := by
  induction s with
  | nil => rfl
  | cons c s ih =>
    rw [byteLength_cons, h.utf8Size (hs c List.mem_cons_self), List.length_cons,
      ih fun d hd => hs d (List.mem_cons_of_mem c hd), Nat.add_comm]

/-- The run at the end of the bytes is as long as the run at the end of the text. -/
theorem takeWhile_reverse_utf8 (h : Sees f g) (s : Text) :
    ((utf8 s).reverse.takeWhile f).length = (s.reverse.takeWhile g).length := by
  generalize hr : s.reverse = r
  obtain rfl : s = r.reverse := by rw [← hr, List.reverse_reverse]
  clear hr
  induction r with
  | nil => rfl
  | cons c r ih =>
    rw [List.reverse_cons, utf8_append, List.reverse_append]
    cases hg : g c with
    | true =>
      rw [show utf8 [c] = [Text.code c] by rw [utf8_cons, h.encode hg]; rfl]
      simp [h.code_eq_true hg, hg, ih]
    | false =>
      have hne : (utf8 [c]).reverse ≠ [] := by
        simp [utf8_cons, String.utf8EncodeChar_ne_nil]
      obtain ⟨b, bs, hb⟩ := List.exists_cons_of_ne_nil hne
      have hmem : b ∈ String.utf8EncodeChar c := by
        have : b ∈ (utf8 [c]).reverse := by rw [hb]; exact List.mem_cons_self
        simpa [utf8_cons] using this
      rw [hb, List.cons_append, List.takeWhile_cons_of_neg (by simp [h.eq_false hg hmem]),
        List.takeWhile_cons_of_neg (by simp [hg])]
      rfl

end Sees

end LessStyle.Text
