import LessStyle.Proofs.Token.ByteSearch
import LessStyle.Proofs.Value.Items
import LessStyle.Proofs.Value.ItemScanner

/-!
# Searches among the bytes of a value

Each search of the scanner of items ends where the search on characters ends: what it counts in bytes
is the byte length of what the other counts in characters. Names and words may hold any character of
128 or more, so there the bytes that go on are those that the characters *outside* the class do not have
(`sees_not_isNameByte`, `Sees.takeWhile_not_utf8`).
-/

namespace LessStyle.Text

theorem sees_between {a z : Char} (ha : a.toNat < 128) (hz : z.toNat < 128) :
    Sees (fun b => code a ≤ b && b ≤ code z) (fun c => a ≤ c && c ≤ z) where
  code hc := by
    rw [Bool.eq_iff_iff]
    simp only [Bool.and_eq_true, decide_eq_true_eq, UInt8.le_iff_toNat_le, toNat_code ha,
      toNat_code hz, toNat_code hc]
    rfl
  byte hb := by
    rw [Bool.and_eq_false_iff, decide_eq_false_iff_not, decide_eq_false_iff_not,
      UInt8.le_iff_toNat_le, UInt8.le_iff_toNat_le, toNat_code hz]
    exact .inr (by omega)
  char {c} hc := by
    rw [Bool.and_eq_false_iff, decide_eq_false_iff_not, decide_eq_false_iff_not]
    refine .inr fun hle => ?_
    have hle : c.toNat ≤ z.toNat := hle
    omega

theorem Sees.or {f f' : UInt8 → Bool} {g g' : Char → Bool} (h : Sees f g) (h' : Sees f' g') :
    Sees (fun b => f b || f' b) (fun c => g c || g' c) where
  code hc := by rw [h.code hc, h'.code hc]
  byte hb := by rw [h.byte hb, h'.byte hb]; rfl
  char hc := by rw [h.char hc, h'.char hc]; rfl

theorem Sees.takeWhile_not_utf8 {f : UInt8 → Bool} {g : Char → Bool} (h : Sees f g) (s : Text) :
    (utf8 s).takeWhile (!f ·) = utf8 (s.takeWhile (!g ·)) := by
  induction s with
  | nil => rfl
  | cons c s ih =>
    cases hg : g c with
    | true =>
      rw [utf8_cons, h.encode hg, List.singleton_append,
        List.takeWhile_cons_of_neg (by simp [h.code_eq_true hg]),
        List.takeWhile_cons_of_neg (by simp [hg])]
      rfl
    | false =>
      rw [utf8_cons, List.takeWhile_append_of_pos fun b hb => by simp [h.eq_false hg hb], ih,
        List.takeWhile_cons_of_pos (by simp [hg]), utf8_cons]

/-- The first byte of a text answers as its first character does. -/
theorem any_head?_utf8 {f : UInt8 → Bool} {g : Char → Bool}
    (h : ∀ {c : Char} {b : UInt8} {bs : List UInt8}, String.utf8EncodeChar c = b :: bs → f b = g c)
    (s : Text) : (utf8 s).head?.any f = s.head?.any g := by
  cases s with
  | nil => rfl
  | cons c s =>
    obtain ⟨b, bs, hb, hbs⟩ := Token.exists_utf8_cons c s
    rw [hbs]
    exact h hb

theorem toNat_lt_of_toLower {c : Char} (h : c.toLower.toNat < 128) : c.toNat < 128 := by
  unfold Char.toLower at h
  split at h
  · next hc =>
    have hle : c.toNat ≤ 90 := hc.2
    omega
  · exact h

/-- Characters below 128 are one byte each. -/
theorem byteLength_of_lt {s : Text} (h : ∀ c ∈ s, c.toNat < 128) : byteLength s = s.length := by
  have hsees : Sees (fun b => b.toNat < 128) (fun c => c.toNat < 128) :=
    ⟨fun hc => by rw [toNat_code hc], fun hb => by simpa using hb, fun hc => by simpa using hc⟩
  exact hsees.byteLength_eq fun c hc => by simpa using h c hc

theorem find?_singleton (d : Char) (s : Text) : find? [d] s = s.findIdx? (· == d) := by
  induction s with
  | nil => rfl
  | cons c s ih =>
    rw [find?, List.findIdx?_cons, ih, List.isPrefixOf_cons_cons, List.isPrefixOf_nil_left,
      Bool.and_true, Bool.beq_comm]

end LessStyle.Text

namespace LessStyle.Item

open Text
open Token (isSpaceByte sees_isSpaceByte exists_utf8_cons)

/-! ## Classes and searches -/

theorem sees_isDigitByte : Sees isDigitByte Char.isDigit :=
  sees_between (a := '0') (z := '9') (by decide) (by decide)

theorem sees_isLetterByte : Sees isLetterByte Char.isAlpha := by
  have h := Sees.or (sees_between (a := 'A') (z := 'Z') (by decide) (by decide))
    (sees_between (a := 'a') (z := 'z') (by decide) (by decide))
  have hg : (fun c : Char => 'A' ≤ c && c ≤ 'Z' || 'a' ≤ c && c ≤ 'z') = Char.isAlpha := by
    funext c
    rw [← Bool.decide_and ('A' ≤ c)]
    rfl
  rwa [hg] at h

theorem sees_endsWordByte : Sees endsWordByte endsWord :=
  Sees.or sees_isSpaceByte (sees_isOneOf (by decide))

/-- A byte outside names stands for a character outside names. -/
theorem sees_not_isNameByte : Sees (!isNameByte ·) (!isNameChar ·) where
  code {c} hc := by
    have hmarks : Sees (isOneOf ['_', '-']) ['_', '-'].contains := sees_isOneOf (by decide)
    rw [Bool.not_inj_iff, isNameByte, sees_isLetterByte.code hc, sees_isDigitByte.code hc,
      hmarks.code hc, toNat_code hc, isNameChar, Char.isAlphanum, List.contains_cons,
      List.contains_cons, List.contains_nil, Bool.or_false, Bool.or_assoc (_ || _) (c == '_')]
  byte hb := by simp [isNameByte, hb]
  char hc := by simp [isNameChar, hc]

theorem isNameByte_head {c : Char} {b : UInt8} {bs : List UInt8}
    (hb : String.utf8EncodeChar c = b :: bs) : isNameByte b = isNameChar c :=
  Bool.not_inj_iff.1 (sees_not_isNameByte.head hb)

theorem nameWidth_cons (c : Char) (s : Text) :
    nameWidth (c :: s) =
      if c == '-' then
        if s.head?.any fun d => isNameChar d && d != '-' then nameWidth s + 1 else 0
      else if isNameChar c then nameWidth s + 1
      else 0 := by
  cases s <;> rfl

/-- All bytes of 128 or more belong to a name. -/
theorem nameLength_append {xs : List UInt8} (ys : List UInt8) (h : ∀ b ∈ xs, 128 ≤ b.toNat) :
    nameLength (xs ++ ys) = xs.length + nameLength ys := by
  induction xs with
  | nil => simp
  | cons b xs ih =>
    have hb : 128 ≤ b.toNat := h b List.mem_cons_self
    have hdash : (b == code '-') = false := (sees_beq (d := '-') (by decide)).byte hb
    have hname : isNameByte b = true := by simp [isNameByte, hb]
    rw [List.cons_append, nameLength, hdash, hname, ih fun b hb => h b (List.mem_cons_of_mem _ hb),
      List.length_cons]
    simp only [Bool.false_eq_true, if_false, if_true]
    omega

theorem nameLength_utf8 (s : Text) :
    nameLength (utf8 s) = byteLength (s.take (nameWidth s)) := by
  induction s with
  | nil => rfl
  | cons c s ih =>
    by_cases hc : c.toNat < 128
    · have hone : c.utf8Size = 1 := (sees_beq hc).utf8Size (beq_self_eq_true c)
      have hnext : (utf8 s).head?.any (fun d => isNameByte d && d != code '-') =
          s.head?.any fun d => isNameChar d && d != '-' := by
        refine any_head?_utf8 (fun hb => ?_) s
        rw [isNameByte_head hb, bne, bne, (sees_beq (by decide)).head hb]
      rw [utf8_cons, encode_of_lt hc, List.singleton_append, nameLength, nameWidth_cons, hnext,
        isNameByte_head (encode_of_lt hc), (sees_beq (d := '-') (by decide)).code hc, ih]
      split
      · split
        · rw [List.take_succ_cons, byteLength_cons, hone, Nat.add_comm]
        · rfl
      split
      · rw [List.take_succ_cons, byteLength_cons, hone, Nat.add_comm]
      · rfl
    · have hc := Nat.le_of_not_lt hc
      have hdash : (c == '-') = false := (sees_beq (d := '-') (by decide)).char hc
      have hname : isNameChar c = true := by simp [isNameChar, hc]
      rw [utf8_cons, nameLength_append _ fun b hb => le_of_mem_encode hc hb,
        String.length_utf8EncodeChar, ih, nameWidth_cons, hdash, hname]
      rfl

theorem digitsWidth_of_isDigit {c : Char} (s : Text) (h : c.isDigit = true) :
    digitsWidth (c :: s) = digitsWidth s + 1 := by
  unfold digitsWidth
  rw [List.takeWhile_cons_of_pos h, List.length_cons]
  dsimp only
  rw [List.drop_succ_cons]
  split
  · split <;> omega
  · rfl

theorem digitsLength_true_utf8 (s : Text) :
    digitsLength true (utf8 s) = (s.takeWhile Char.isDigit).length := by
  induction s with
  | nil => rfl
  | cons c s ih =>
    obtain ⟨b, bs, hb, hbs⟩ := exists_utf8_cons c s
    cases hc : c.isDigit with
    | true =>
      rw [utf8_cons, sees_isDigitByte.encode hc, List.singleton_append, digitsLength,
        sees_isDigitByte.code_eq_true hc, if_pos rfl, ih, List.takeWhile_cons_of_pos hc,
        List.length_cons]
    | false =>
      rw [hbs, digitsLength, sees_isDigitByte.head hb, hc, List.takeWhile_cons_of_neg (by simp [hc])]
      simp

/-- What begins with no digit has digits if it begins with a point and a digit follows. -/
theorem digitsWidth_of_not_isDigit {c : Char} (s : Text) (h : c.isDigit = false) :
    digitsWidth (c :: s) =
      if c == '.' && s.head?.any Char.isDigit then (s.takeWhile Char.isDigit).length + 1 else 0 := by
  unfold digitsWidth
  rw [List.takeWhile_cons_of_neg (by simp [h]), List.length_nil]
  dsimp only
  rw [List.drop_zero]
  by_cases hc : c = '.'
  · subst hc
    cases s with
    | nil => rfl
    | cons d s => cases hd : d.isDigit <;> simp [hd, Nat.add_comm]
  · rw [beq_eq_false_iff_ne.2 hc]
    split
    · next heq => exact absurd (List.cons.inj heq).1 hc
    · rfl

theorem digitsLength_utf8 (s : Text) : digitsLength false (utf8 s) = digitsWidth s := by
  induction s with
  | nil => rfl
  | cons c s ih =>
    obtain ⟨b, bs, hb, hbs⟩ := exists_utf8_cons c s
    cases hc : c.isDigit with
    | true =>
      rw [utf8_cons, sees_isDigitByte.encode hc, List.singleton_append, digitsLength,
        sees_isDigitByte.code_eq_true hc, if_pos rfl, ih, digitsWidth_of_isDigit s hc]
    | false =>
      rw [digitsWidth_of_not_isDigit s hc, hbs, digitsLength, sees_isDigitByte.head hb, hc,
        if_neg Bool.false_ne_true, (sees_beq (d := '.') (by decide)).head hb]
      by_cases hpoint : c = '.'
      · have hnil : bs = [] := by
          rw [hpoint, encode_of_lt (by decide)] at hb
          exact (List.cons.inj hb).2.symm
        rw [hnil, List.nil_append, any_head?_utf8 sees_isDigitByte.head, digitsLength_true_utf8,
          Bool.not_false, Bool.and_true]
      · rw [beq_eq_false_iff_ne.2 hpoint]
        rfl

theorem unitWidth_eq (s : Text) :
    unitWidth s = if s.head? == some '%' then 1 else (s.takeWhile Char.isAlpha).length := by
  unfold unitWidth
  split
  · rfl
  · next hs =>
    have hhead : (s.head? == some '%') = false := by
      rw [beq_eq_false_iff_ne]
      intro hhead
      obtain ⟨t, rfl⟩ := List.head?_eq_some_iff.1 hhead
      exact hs t rfl
    rw [hhead, if_neg Bool.false_ne_true]

theorem unitLength_utf8 (s : Text) : unitLength (utf8 s) = byteLength (s.take (unitWidth s)) := by
  rw [unitLength, unitWidth_eq, Token.head?_utf8 (by decide)]
  split
  · next hhead =>
    obtain ⟨t, rfl⟩ := List.head?_eq_some_iff.1 (beq_iff_eq.1 hhead)
    rfl
  · rw [sees_isLetterByte.takeWhile_utf8, length_utf8, take_length_takeWhile]

/-- Four bytes are looked at, and four characters if they are `url(`. -/
theorem startsUrlBytes_eq (s : Text) : startsUrlBytes s = startsUrl s := by
  rw [Bool.eq_iff_iff, startsUrlBytes, startsUrl]
  constructor
  · intro h
    split at h
    · next head tail hsplit =>
      obtain ⟨rfl, -⟩ := splitBytes?_eq_some hsplit
      have hlen : head.length = 4 := by
        rw [sameIgnoringCase, beq_iff_eq] at h
        simpa using congrArg List.length h
      rwa [← hlen, List.take_left]
    · cases h
  · intro h
    have hmap := h
    rw [sameIgnoringCase, beq_iff_eq] at hmap
    have hlt : ∀ c ∈ s.take 4, c.toNat < 128 := by
      intro c hc
      have hlower := List.mem_map_of_mem (f := Char.toLower) hc
      rw [hmap] at hlower
      have hall : (['u', 'r', 'l', '('].map Char.toLower).all (·.toNat < 128) = true := by decide
      exact toNat_lt_of_toLower (of_decide_eq_true (List.all_eq_true.1 hall _ hlower))
    have hfour : byteLength (s.take 4) = 4 := by
      rw [byteLength_of_lt hlt]
      simpa using congrArg List.length hmap
    have hsplit := splitBytes?_append (s.take 4) (s.drop 4)
    rw [hfour, List.take_append_drop] at hsplit
    rw [hsplit]
    exact h

end LessStyle.Item
