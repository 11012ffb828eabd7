import LessStyle.Proofs.Text.Scan
import LessStyle.Proofs.Token.ByteSearch
import LessStyle.Value.Item

/-!
# Items in their value

Items and blanks make up a value: `Item.Scans` says that a text is a row of both, each item at its own
offset, and `Item.scans_scanFrom` that scanning gives such a row. So the items stand in the value one
behind the other, none is empty, and what lies between them is blank (`Item.Scans.standsIn`, `pairwise`,
`covers`). How a number divides into its numeral and its unit is said apart, in `Item.WellFormed`.
-/

namespace LessStyle.Item

open Text

/-! ## Numbers -/

/-- Digits, or a point with digits behind it and perhaps before it. -/
def IsNumeral (s : Text) : Prop :=
  ∃ whole, (∀ c ∈ whole, c.isDigit = true) ∧
    (s = whole ∧ whole ≠ [] ∨
      ∃ fraction, fraction ≠ [] ∧ (∀ c ∈ fraction, c.isDigit = true) ∧ s = whole ++ '.' :: fraction)

/-- Nothing, a percent sign or letters. -/
def IsUnit (s : Text) : Prop := s = [] ∨ s = ['%'] ∨ ∀ c ∈ s, c.isAlpha = true

/-- The character `c` before the text `s` begins a number. -/
def startsNumber (c : Char) (s : Text) : Bool := c.isDigit || (c == '.' && startsDigit s)

theorem isNumeral_take_digitsWidth {c : Char} {s : Text} (h : startsNumber c s = true) :
    IsNumeral ((c :: s).take (digitsWidth (c :: s))) := by
  have hrun : ∀ t : Text, ∀ d ∈ t.takeWhile Char.isDigit, d.isDigit = true :=
    fun t d hd => List.mem_takeWhile_imp hd
  have hpoint : ∀ {d : Char} {r : Text}, (c :: s).dropWhile Char.isDigit = '.' :: d :: r →
      d.isDigit = true → IsNumeral ((c :: s).take (((c :: s).takeWhile Char.isDigit).length + 1 +
        ((d :: r).takeWhile Char.isDigit).length)) := by
    intro d r hdrop hd
    refine ⟨(c :: s).takeWhile Char.isDigit, hrun _, .inr ⟨(d :: r).takeWhile Char.isDigit, ?_,
      hrun _, ?_⟩⟩
    · simp [hd]
    · rw [Nat.add_assoc, List.take_add, take_length_takeWhile, drop_length_takeWhile, hdrop,
        Nat.add_comm 1, List.take_succ_cons, take_length_takeWhile]
  have hwhole : c.isDigit = true →
      IsNumeral ((c :: s).take ((c :: s).takeWhile Char.isDigit).length) := by
    intro hc
    rw [take_length_takeWhile]
    exact ⟨_, hrun _, .inl ⟨rfl, by simp [hc]⟩⟩
  unfold digitsWidth
  dsimp only
  rw [drop_length_takeWhile]
  cases hc : c.isDigit with
  | true =>
    split
    · next d r hdrop =>
      split
      · next hd => exact hpoint hdrop hd
      · exact hwhole hc
    · exact hwhole hc
  | false =>
    -- a point that a digit follows
    simp only [startsNumber, hc, Bool.false_or, Bool.and_eq_true, beq_iff_eq] at h
    obtain ⟨rfl, hs⟩ := h
    cases s with
    | nil => cases hs
    | cons d r =>
      have hdrop : ('.' :: d :: r).dropWhile Char.isDigit = '.' :: d :: r := by simp [hc]
      have hd : d.isDigit = true := hs
      simpa only [hdrop, hd, if_true] using hpoint hdrop hd

theorem digitsWidth_le (s : Text) : digitsWidth s ≤ s.length := by
  have hlen := congrArg List.length (List.takeWhile_append_dropWhile (p := Char.isDigit) (l := s))
  rw [List.length_append] at hlen
  unfold digitsWidth
  dsimp only
  rw [drop_length_takeWhile]
  split
  · next d r hdrop =>
    have hle := (List.takeWhile_sublist (l := d :: r) Char.isDigit).length_le
    rw [hdrop, List.length_cons] at hlen
    split <;> omega
  · omega

theorem unitWidth_le (s : Text) : unitWidth s ≤ s.length := by
  unfold unitWidth
  split
  · exact Nat.succ_le_succ (Nat.zero_le _)
  · exact (List.takeWhile_sublist _).length_le

theorem isUnit_take_unitWidth (s : Text) : IsUnit (s.take (unitWidth s)) := by
  unfold unitWidth
  split
  · exact .inr (.inl rfl)
  · rw [take_length_takeWhile]
    exact .inr (.inr fun c hc => List.mem_takeWhile_imp hc)

/-! ## Single items -/

/-- An item has a text. That of a number is its numeral and its unit; no other item has a unit. -/
structure WellFormed (i : Item) : Prop where
  text : i.text ≠ []
  number : i.kind = .number → ∃ numeral, i.text = numeral ++ i.unit ∧ IsNumeral numeral ∧ IsUnit i.unit
  other : i.kind ≠ .number → i.unit = []

/-- The characters other than blanks that alone decide what they begin. -/
def marks : List Char := ['"', '\'', '(', ')', ',', '+', '*', '/', '-', '@']

theorem lexeme_dash (s : Text) :
    lexeme '-' s = if startsDashWord s then (.word, wordWidth s, 0) else (.operator, 0, 0) := rfl

theorem lexeme_of_notMem_marks {c : Char} (r : Text) (hc : c ∉ marks) :
    lexeme c r =
      if startsNumber c r then
        (.number, digitsWidth (c :: r) + unitWidth ((c :: r).drop (digitsWidth (c :: r))) - 1,
          unitWidth ((c :: r).drop (digitsWidth (c :: r))))
      else if startsUrl (c :: r) then (.url, urlWidth r, 0)
      else (.word, wordWidth r, 0) := by
  simp only [marks, List.mem_cons, List.not_mem_nil, or_false, not_or] at hc
  simp [lexeme, isQuote, startsNumber, hc]

/-- What begins with a character is a number, or it is something else and has no unit. -/
theorem lexeme_cases (c : Char) (s : Text) :
    (startsNumber c s = true ∧ lexeme c s =
      (.number, digitsWidth (c :: s) + unitWidth ((c :: s).drop (digitsWidth (c :: s))) - 1,
        unitWidth ((c :: s).drop (digitsWidth (c :: s))))) ∨
    ∃ kind n, kind ≠ .number ∧ lexeme c s = (kind, n, 0) := by
  by_cases hc : c ∈ marks
  · refine .inr ?_
    simp only [marks, List.mem_cons, List.not_mem_nil, or_false] at hc
    rcases hc with rfl | rfl | rfl | rfl | rfl | rfl | rfl | rfl | rfl | rfl
    · exact ⟨.string, _, by decide, rfl⟩
    · exact ⟨.string, _, by decide, rfl⟩
    · exact ⟨.openParen, 0, by decide, rfl⟩
    · exact ⟨.closeParen, 0, by decide, rfl⟩
    · exact ⟨.comma, 0, by decide, rfl⟩
    · exact ⟨.operator, 0, by decide, rfl⟩
    · exact ⟨.operator, 0, by decide, rfl⟩
    · exact ⟨.operator, 0, by decide, rfl⟩
    · rw [lexeme_dash]
      split
      · exact ⟨.word, _, by decide, rfl⟩
      · exact ⟨.operator, 0, by decide, rfl⟩
    · exact ⟨.variable, _, by decide, rfl⟩
  · rw [lexeme_of_notMem_marks s hc]
    split
    · next hstart => exact .inl ⟨hstart, rfl⟩
    split
    · exact .inr ⟨.url, _, by decide, rfl⟩
    · exact .inr ⟨.word, _, by decide, rfl⟩

/-- The item that begins with the character `c` before the text `s`. -/
def first (offset : Nat) (c : Char) (s : Text) : Item :=
  let text : Text := c :: s.take (lexeme c s).2.1
  ⟨(lexeme c s).1, text, text.drop (text.length - (lexeme c s).2.2), offset⟩

theorem scanFrom_nil (offset : Nat) : scanFrom offset [] = [] := by
  rw [scanFrom]

theorem scanFrom_of_isBlank (offset : Nat) {c : Char} (s : Text) (h : isBlank c = true) :
    scanFrom offset (c :: s) = scanFrom (offset + 1) s := by
  rw [scanFrom, if_pos h]

theorem scanFrom_of_not_isBlank (offset : Nat) {c : Char} (s : Text) (h : isBlank c = false) :
    scanFrom offset (c :: s) =
      first offset c s :: scanFrom (first offset c s).stop (s.drop (lexeme c s).2.1) := by
  rw [scanFrom, if_neg (by simp [h])]
  rfl

theorem text_first_append (offset : Nat) (c : Char) (s : Text) :
    (first offset c s).text ++ s.drop (lexeme c s).2.1 = c :: s := by
  rw [first, List.cons_append, List.take_append_drop]

/-- The text of a number is its numeral and its unit. -/
theorem number_text {c : Char} {s : Text} {digits unit : Nat} (h : startsNumber c s = true)
    (hdigits : digitsWidth (c :: s) = digits) (hunit : unitWidth ((c :: s).drop digits) = unit) :
    c :: s.take (digits + unit - 1) =
        (c :: s).take digits ++ ((c :: s).drop digits).take unit ∧
      (c :: s.take (digits + unit - 1)).length - unit = ((c :: s).take digits).length := by
  have hpos : 0 < digits := by
    rcases Nat.eq_zero_or_pos digits with rfl | hpos
    · have hnumeral := isNumeral_take_digitsWidth h
      rw [hdigits] at hnumeral
      obtain ⟨whole, -, ⟨htake, hne⟩ | ⟨fraction, -, -, htake⟩⟩ := hnumeral
      · exact absurd htake.symm hne
      · simp at htake
    · exact hpos
  have htext : c :: s.take (digits + unit - 1) =
      (c :: s).take digits ++ ((c :: s).drop digits).take unit := by
    rw [← List.take_add, ← List.take_succ_cons]
    congr 1
    omega
  have hle : unit ≤ ((c :: s).drop digits).length := hunit ▸ unitWidth_le _
  refine ⟨htext, ?_⟩
  rw [htext, List.length_append, List.length_take_of_le hle]
  omega

/-- **The item that a character begins is well-formed.** -/
theorem wellFormed_first (offset : Nat) (c : Char) (s : Text) : (first offset c s).WellFormed := by
  unfold first
  rcases lexeme_cases c s with ⟨hstart, hlex⟩ | ⟨kind, n, hkind, hlex⟩
  · rw [hlex]
    dsimp only
    have hnumeral := isNumeral_take_digitsWidth hstart
    have hisUnit := isUnit_take_unitWidth ((c :: s).drop (digitsWidth (c :: s)))
    obtain ⟨htext, hcut⟩ := number_text hstart rfl rfl
    generalize digitsWidth (c :: s) = digits at *
    generalize unitWidth ((c :: s).drop digits) = unit at *
    have hdrop : (c :: s.take (digits + unit - 1)).drop ((c :: s).take digits).length =
        ((c :: s).drop digits).take unit := by
      rw [htext, List.drop_left]
    rw [hcut, hdrop]
    exact ⟨List.cons_ne_nil _ _, fun _ => ⟨(c :: s).take digits, htext, hnumeral, hisUnit⟩,
      fun h => absurd rfl h⟩
  · rw [hlex]
    refine ⟨List.cons_ne_nil _ _, fun h => absurd h hkind, fun _ => ?_⟩
    exact List.drop_eq_nil_of_le (Nat.le_of_eq (Nat.sub_zero _).symm)

/-! ## Rows of items -/

/-- A text that begins at `offset` is a row of blanks and of these items, each at its offset. -/
inductive Scans : Nat → Text → List Item → Prop where
  | nil (offset : Nat) : Scans offset [] []
  | blank {offset : Nat} {c : Char} {s : Text} {is : List Item} (hblank : isBlank c = true)
      (tail : Scans (offset + 1) s is) : Scans offset (c :: s) is
  | item {i : Item} {s : Text} {is : List Item} (wellFormed : i.WellFormed)
      (tail : Scans i.stop s is) : Scans i.offset (i.text ++ s) (i :: is)

/-- Scanning goes on behind a blank, and behind the item that another character begins. -/
theorem scanFrom_induct {motive : Nat → Text → List Item → Prop}
    (nil : ∀ offset, motive offset [] [])
    (blank : ∀ {offset c s is}, isBlank c = true → motive (offset + 1) s is → motive offset (c :: s) is)
    (item : ∀ {offset c s is}, motive (first offset c s).stop (s.drop (lexeme c s).2.1) is →
      motive offset (c :: s) (first offset c s :: is)) (offset : Nat) (s : Text) :
    motive offset s (scanFrom offset s) := by
  induction hlen : s.length using Nat.strongRecOn generalizing offset s with
  | ind len ih =>
  subst hlen
  cases s with
  | nil =>
    rw [scanFrom_nil]
    exact nil offset
  | cons c s =>
    cases hblank : isBlank c with
    | true =>
      rw [scanFrom_of_isBlank offset s hblank]
      exact blank hblank (ih _ (Nat.lt_succ_self _) _ _ rfl)
    | false =>
      have hlt : (s.drop (lexeme c s).2.1).length < (c :: s).length := by
        rw [List.length_drop, List.length_cons]
        omega
      rw [scanFrom_of_not_isBlank offset s hblank]
      exact item (ih _ hlt _ _ rfl)

theorem scans_scanFrom (offset : Nat) (s : Text) : Scans offset s (scanFrom offset s) := by
  induction offset, s using scanFrom_induct with
  | nil offset => exact .nil offset
  | blank hblank tail => exact .blank hblank tail
  | @item offset c s is tail =>
    have hitem := Scans.item (wellFormed_first offset c s) tail
    rwa [text_first_append] at hitem

theorem WellFormed.offset_lt_stop {i : Item} (h : i.WellFormed) : i.offset < i.stop := by
  obtain ⟨c, s, hcs⟩ := List.exists_cons_of_ne_nil h.text
  have hsize := c.utf8Size_pos
  rw [stop, hcs, byteLength_cons]
  omega

namespace Scans

variable {offset : Nat} {s : Text} {is : List Item}

theorem wellFormed (h : Scans offset s is) : ∀ i ∈ is, i.WellFormed := by
  induction h with
  | nil => exact fun i hi => absurd hi List.not_mem_nil
  | blank _ _ ih => exact ih
  | item hi _ ih => exact List.forall_mem_cons.2 ⟨hi, ih⟩

/-- An item stands in the text at its offset. -/
theorem standsIn (h : Scans offset s is) : ∀ i ∈ is, ∃ front rest,
    s = front ++ (i.text ++ rest) ∧ i.offset = offset + byteLength front := by
  induction h with
  | nil => exact fun i hi => absurd hi List.not_mem_nil
  | @blank offset c s is hblank _ ih =>
    intro i hi
    obtain ⟨front, rest, rfl, hoffset⟩ := ih i hi
    refine ⟨c :: front, rest, rfl, ?_⟩
    rw [hoffset, byteLength_cons, Token.sees_isSpaceByte.utf8Size hblank, Nat.add_assoc]
  | @item j s is _ _ ih =>
    intro i hi
    rcases List.mem_cons.1 hi with rfl | hi
    · exact ⟨[], s, rfl, rfl⟩
    · obtain ⟨front, rest, rfl, hoffset⟩ := ih i hi
      refine ⟨j.text ++ front, rest, (List.append_assoc _ _ _).symm, ?_⟩
      rw [hoffset, stop, byteLength_append, Nat.add_assoc]

/-- An item ends where the next one begins, or before. -/
theorem pairwise (h : Scans offset s is) : is.Pairwise fun i j => i.stop ≤ j.offset := by
  induction h with
  | nil => exact .nil
  | blank _ _ ih => exact ih
  | item _ tail ih =>
    refine .cons (fun j hj => ?_) ih
    obtain ⟨front, rest, -, hoffset⟩ := tail.standsIn j hj
    omega

/-- A byte of the text belongs to an item or to a blank. -/
theorem covers (h : Scans offset s is) {k : Nat} {b : UInt8} (hb : (utf8 s)[k]? = some b) :
    (∃ i ∈ is, i.offset ≤ offset + k ∧ offset + k < i.stop) ∨ Token.isSpaceByte b = true := by
  induction h generalizing k with
  | nil => simp at hb
  | @blank offset c s is hblank _ ih =>
    rw [utf8_cons, Token.sees_isSpaceByte.encode hblank] at hb
    cases k with
    | zero =>
      obtain rfl := Option.some.inj hb
      exact .inr (Token.sees_isSpaceByte.code_eq_true hblank)
    | succ k =>
      rcases ih hb with ⟨i, hi, hle, hlt⟩ | hspace
      · exact .inl ⟨i, hi, by omega, by omega⟩
      · exact .inr hspace
  | @item j s is _ _ ih =>
    by_cases hk : k < byteLength j.text
    · exact .inl ⟨j, List.mem_cons_self, Nat.le_add_right _ _, Nat.add_lt_add_left hk _⟩
    · have hk := Nat.le_of_not_lt hk
      rw [utf8_append, List.getElem?_append_right (by rwa [length_utf8]), length_utf8] at hb
      rcases ih hb with ⟨i, hi, hle, hlt⟩ | hspace
      · rw [stop] at hle hlt
        exact .inl ⟨i, List.mem_cons_of_mem _ hi, by omega, by omega⟩
      · exact .inr hspace

end Scans

end LessStyle.Item
