import LessStyle.Proofs.Text.Utf8
import LessStyle.Proofs.Value.Literal
import LessStyle.Rule.Spacing

/-!
# Spaces behind commas

The space behind a comma of a value is judged in the masked value, where a literal behind the comma is
a run of spaces. `badComma?` is the offset of the first comma outside literals whose space is wrong
there (`badComma?_eq_some_iff`). The space in the value itself may be another: where a literal begins
right behind it, the run goes on through the literal. `Hidden` says when that changes the verdict
(`wrongGap_iff_mask`).
-/

namespace LessStyle.Rule

open Text

/-! ## Commas outside literals -/

/-- A comma outside the literals of a value, with the text on both sides of it. -/
structure CommaAt (value front rest : Text) : Prop where
  eq : value = front ++ ',' :: rest
  outside : Outside value (',' :: rest)

/-- The byte offset of the first comma outside literals with a wrong text behind it. -/
def FirstComma (wrong : Text → Prop) (value : Text) (offset : Nat) : Prop :=
  ∃ front rest, CommaAt value front rest ∧ front.byteLength = offset ∧ wrong rest ∧
    ∀ front' rest', CommaAt value front' rest' → front'.length < front.length → ¬ wrong rest'

theorem not_commaAt_nil (front rest : Text) : ¬ CommaAt [] front rest :=
  fun h => by simpa using h.eq

/-- Behind a literal. -/
theorem commaAt_literal {c : Char} {s : Text} {n : Nat} (h : literalWidth? c s = some n)
    (front rest : Text) :
    CommaAt (c :: s) front rest ↔
      ∃ front', front = c :: s.take n ++ front' ∧ CommaAt (s.drop n) front' rest := by
  constructor
  · rintro ⟨heq, houtside⟩
    cases houtside with
    | here =>
      rw [literalWidth?_comma] at h
      cases h
    | char plain =>
      rw [h] at plain
      cases plain
    | literal width tail =>
      obtain rfl := Option.some.inj (h.symm.trans width)
      obtain ⟨front', hfront⟩ := tail.isSuffix
      refine ⟨front', ?_, hfront.symm, tail⟩
      have hall : c :: s.take n ++ front' ++ ',' :: rest = front ++ ',' :: rest := by
        rw [List.append_assoc, hfront, List.cons_append, List.take_append_drop, heq]
      exact (List.append_cancel_right hall).symm
  · rintro ⟨front', rfl, heq, tail⟩
    refine ⟨?_, .literal h tail⟩
    rw [List.append_assoc, ← heq, List.cons_append, List.take_append_drop]

/-- At or behind a character that begins no literal. -/
theorem commaAt_char {c : Char} {s : Text} (h : literalWidth? c s = none) (front rest : Text) :
    CommaAt (c :: s) front rest ↔
      (front = [] ∧ c = ',' ∧ rest = s) ∨ ∃ front', front = c :: front' ∧ CommaAt s front' rest := by
  constructor
  · rintro ⟨heq, houtside⟩
    cases houtside with
    | here => exact .inl ⟨List.append_cancel_right (heq.symm.trans (List.nil_append _).symm), rfl, rfl⟩
    | char plain tail =>
      obtain ⟨front', hfront⟩ := tail.isSuffix
      refine .inr ⟨front', ?_, hfront.symm, tail⟩
      have hall : c :: front' ++ ',' :: rest = front ++ ',' :: rest := by
        rw [List.cons_append, hfront, heq]
      exact (List.append_cancel_right hall).symm
    | literal width =>
      rw [h] at width
      cases width
  · rintro (⟨rfl, rfl, rfl⟩ | ⟨front', rfl, heq, tail⟩)
    · exact ⟨rfl, .here _⟩
    · exact ⟨by rw [heq, List.cons_append], .char h tail⟩

/-- If the wrong commas of a value are those of its tail, so is the first. -/
theorem firstComma_skip {wrong : Text → Prop} {value tail : Text} (lead : Text)
    (h : ∀ front rest, wrong rest →
      (CommaAt value front rest ↔ ∃ front', front = lead ++ front' ∧ CommaAt tail front' rest))
    (offset : Nat) :
    FirstComma wrong value offset ↔
      ∃ k, offset = byteLength lead + k ∧ FirstComma wrong tail k := by
  constructor
  · rintro ⟨front, rest, hcomma, rfl, hwrong, hfirst⟩
    obtain ⟨front', rfl, hcomma'⟩ := (h front rest hwrong).1 hcomma
    refine ⟨byteLength front', byteLength_append _ _, front', rest, hcomma', rfl, hwrong, ?_⟩
    intro a b hab hlt hb
    exact hfirst _ b ((h _ b hb).2 ⟨a, rfl, hab⟩) (by simpa using hlt) hb
  · rintro ⟨_, rfl, front', rest, hcomma, rfl, hwrong, hfirst⟩
    refine ⟨_, rest, (h _ rest hwrong).2 ⟨front', rfl, hcomma⟩, byteLength_append _ _, hwrong, ?_⟩
    intro a b hab hlt hb
    obtain ⟨a', rfl, hab'⟩ := (h a b hb).1 hab
    exact hfirst a' b hab' (by simpa using hlt) hb

/-- The first comma is found behind a literal. -/
theorem firstComma_literal (wrong : Text → Prop) {c : Char} {s : Text} {n : Nat}
    (h : literalWidth? c s = some n) (offset : Nat) :
    FirstComma wrong (c :: s) offset ↔
      ∃ k, offset = byteLength (c :: s.take n) + k ∧ FirstComma wrong (s.drop n) k :=
  firstComma_skip (c :: s.take n) (fun front rest _ => commaAt_literal h front rest) offset

/-- The first comma is found behind a character that is no wrong comma. -/
theorem firstComma_char (wrong : Text → Prop) {c : Char} {s : Text}
    (h : literalWidth? c s = none) (hc : ¬ (c = ',' ∧ wrong s)) (offset : Nat) :
    FirstComma wrong (c :: s) offset ↔ ∃ k, offset = c.utf8Size + k ∧ FirstComma wrong s k := by
  refine firstComma_skip [c] (fun front rest hwrong => ?_) offset
  rw [commaAt_char h]
  refine or_iff_right ?_
  rintro ⟨-, rfl, rfl⟩
  exact hc ⟨rfl, hwrong⟩

/-- The first comma is here. -/
theorem firstComma_here (wrong : Text → Prop) {s : Text} (h : wrong s) (offset : Nat) :
    FirstComma wrong (',' :: s) offset ↔ offset = 0 := by
  have hcomma : CommaAt (',' :: s) [] s := ⟨rfl, .here _⟩
  constructor
  · rintro ⟨front, rest, -, rfl, -, hfirst⟩
    cases front with
    | nil => rfl
    | cons c front => exact absurd h (hfirst [] s hcomma (Nat.succ_pos _))
  · rintro rfl
    exact ⟨[], s, hcomma, rfl, h, fun a b _ hlt => absurd hlt (Nat.not_lt_zero _)⟩

/-! ## The search -/

/-- The white space in front is not a single space, has no line break and is not all of the text. -/
structure WrongGap (s : Text) : Prop where
  notOne : s.takeWhile isWhite ≠ [' ']
  noBreak : '\n' ∉ s.takeWhile isWhite
  notAll : s.takeWhile isWhite ≠ s

theorem isGoodGap_eq_false_iff (s : Text) : isGoodGap s = false ↔ WrongGap s := by
  have hall : (s.takeWhile isWhite).length = s.length ↔ s.takeWhile isWhite = s :=
    ⟨(List.takeWhile_prefix isWhite).eq_of_length, congrArg List.length⟩
  simp only [isGoodGap, Bool.or_eq_false_iff, beq_eq_false_iff_ne, decide_eq_false_iff_not, hall,
    List.contains_eq_mem]
  exact ⟨fun h => ⟨h.1.1, h.1.2, h.2⟩, fun h => ⟨⟨h.notOne, h.noBreak⟩, h.notAll⟩⟩

theorem badCommaFrom?_spaces (offset n : Nat) (s : Text) :
    badCommaFrom? offset (List.replicate n ' ' ++ s) = badCommaFrom? (offset + n) s := by
  induction n generalizing offset with
  | zero => rfl
  | succ n ih =>
    rw [List.replicate_succ, List.cons_append, badCommaFrom?]
    have hspace : (' ' == ',') = false := by decide
    rw [hspace, Bool.false_and, if_neg (by simp), ih, show ' '.utf8Size = 1 from rfl]
    congr 1
    omega

/-- An offset counted from further on. -/
theorem exists_shift_iff (p : Nat → Prop) (offset k m : Nat) :
    (∃ n, offset = k + m + n ∧ p n) ↔ ∃ n, offset = k + n ∧ ∃ n', n = m + n' ∧ p n' := by
  constructor
  · rintro ⟨n, rfl, hn⟩
    exact ⟨_, Nat.add_assoc _ _ _, n, rfl, hn⟩
  · rintro ⟨_, rfl, n, rfl, hn⟩
    exact ⟨n, (Nat.add_assoc _ _ _).symm, hn⟩

/-- The search in the masked value goes from one place outside literals to the next. -/
theorem badCommaFrom?_mask (offset k : Nat) (value : Text) :
    badCommaFrom? k (mask value) = some offset ↔
      ∃ n, offset = k + n ∧ FirstComma (fun rest => WrongGap (mask rest)) value n := by
  fun_induction mask value generalizing k with
  | case1 =>
    constructor
    · intro h
      cases h
    · rintro ⟨_, -, front, rest, hcomma, -⟩
      exact absurd hcomma (not_commaAt_nil front rest)
  | case2 c s n h ih =>
    rw [spacesFor, badCommaFrom?_spaces, ih, exists_shift_iff]
    simp only [firstComma_literal _ h]
  | case3 c s h ih =>
    rw [badCommaFrom?]
    split
    · next hc =>
      simp only [Bool.and_eq_true, beq_iff_eq, Bool.not_eq_true', isGoodGap_eq_false_iff] at hc
      obtain ⟨rfl, hwrong⟩ := hc
      simp only [firstComma_here (fun rest => WrongGap (mask rest)) hwrong, Option.some.injEq]
      exact ⟨fun hk => ⟨0, hk.symm, rfl⟩, fun ⟨n, hn, hzero⟩ => by omega⟩
    · next hc =>
      simp only [Bool.and_eq_true, beq_iff_eq, Bool.not_eq_true', isGoodGap_eq_false_iff] at hc
      rw [ih, exists_shift_iff]
      simp only [firstComma_char (fun rest => WrongGap (mask rest)) h hc]

/-- **The comma that is found** is the first one outside literals with a wrong gap in the mask. -/
theorem badComma?_eq_some_iff (value : Text) (offset : Nat) :
    badComma? value = some offset ↔
      FirstComma (fun rest => WrongGap (mask rest)) value offset := by
  rw [badComma?, badCommaFrom?_mask]
  simp

/-! ## Gaps and masks -/

/-- The white space in front has a line break or is all of the text. -/
def RunsOut (s : Text) : Prop := '\n' ∈ s.takeWhile isWhite ∨ s.takeWhile isWhite = s

/-- A literal hides the gap: it begins right behind white space without a line break, and the run of
blanks in the mask, which goes on through the literal, runs out though the gap is not one space, or
does not though it is. -/
structure Hidden (rest : Text) : Prop where
  literal : beginsLiteral (rest.dropWhile isWhite) = true
  noBreak : '\n' ∉ rest.takeWhile isWhite
  differs : ¬ (rest.takeWhile isWhite = [' '] ↔ RunsOut (mask (rest.dropWhile isWhite)))

/-- The gap of a text that goes on behind it. -/
theorem wrongGap_iff {rest : Text} (h : rest.dropWhile isWhite ≠ []) :
    WrongGap rest ↔ rest.takeWhile isWhite ≠ [' '] ∧ '\n' ∉ rest.takeWhile isWhite := by
  have hsplit := List.takeWhile_append_dropWhile (p := isWhite) (l := rest)
  refine ⟨fun hw => ⟨hw.notOne, hw.noBreak⟩, fun ⟨hone, hbreak⟩ => ⟨hone, hbreak, fun hall => h ?_⟩⟩
  rwa [hall, List.append_right_eq_self] at hsplit

/-- The gap in the mask begins with the gap in the text. -/
theorem takeWhile_mask (rest : Text) :
    mask rest = rest.takeWhile isWhite ++ mask (rest.dropWhile isWhite) ∧
      (mask rest).takeWhile isWhite =
        rest.takeWhile isWhite ++ (mask (rest.dropWhile isWhite)).takeWhile isWhite := by
  have hgap : ∀ c ∈ rest.takeWhile isWhite, isWhite c = true :=
    fun c hc => List.all_eq_true.1 List.all_takeWhile c hc
  have hmask := mask_append_of_isWhite hgap (rest.dropWhile isWhite)
  rw [List.takeWhile_append_dropWhile] at hmask
  refine ⟨hmask, ?_⟩
  rw [hmask, List.takeWhile_append_of_pos hgap]

/-- A gap that no literal follows is the same in the mask. -/
theorem wrongGap_mask_of_not_beginsLiteral {rest : Text}
    (h : beginsLiteral (rest.dropWhile isWhite) = false) : WrongGap (mask rest) ↔ WrongGap rest := by
  obtain ⟨hmask, hgap⟩ := takeWhile_mask rest
  have hsplit := List.takeWhile_append_dropWhile (p := isWhite) (l := rest)
  have hhead := List.head?_dropWhile_not isWhite rest
  cases htail : rest.dropWhile isWhite with
  | nil =>
    rw [htail, mask_nil, List.append_nil] at hmask
    rw [htail, List.append_nil] at hsplit
    rw [hmask, hsplit]
  | cons c s =>
    rw [htail] at h hmask hgap hhead hsplit
    have hc : isWhite c = false := by simpa using hhead
    have hwidth : literalWidth? c s = none := by simpa [beginsLiteral] using h
    rw [mask_of_none hwidth] at hmask hgap
    rw [List.takeWhile_cons_of_neg (by simp [hc]), List.append_nil] at hgap
    have hmasked : (mask rest).takeWhile isWhite ≠ mask rest := by
      rw [hgap, hmask]
      simp
    have hreal : rest.takeWhile isWhite ≠ rest := by
      intro hall
      rw [hall] at hsplit
      simp at hsplit
    exact ⟨fun hw => ⟨hgap ▸ hw.notOne, hgap ▸ hw.noBreak, hreal⟩,
      fun hw => ⟨hgap ▸ hw.notOne, hgap ▸ hw.noBreak, hmasked⟩⟩

/-- The mask of a literal begins with a space, and if only with one, that is all of it. -/
theorem mask_of_beginsLiteral {s : Text} (h : beginsLiteral s = true) :
    ∃ t, mask s = ' ' :: t ∧ (t.takeWhile isWhite = [] → t = []) := by
  cases s with
  | nil => cases h
  | cons c s =>
    obtain ⟨n, hn⟩ := Option.isSome_iff_exists.1 h
    have hpos : 0 < byteLength (c :: s.take n) := by
      have := c.utf8Size_pos
      rw [byteLength_cons]
      omega
    obtain ⟨m, hm⟩ := Nat.exists_eq_succ_of_ne_zero (Nat.ne_of_gt hpos)
    rw [mask_of_some hn, spacesFor, hm, List.replicate_succ, List.cons_append]
    refine ⟨_, rfl, fun hnil => ?_⟩
    cases m with
    | succ m => simp [List.replicate_succ, show isWhite ' ' = true by decide] at hnil
    | zero =>
      -- a literal of one byte is a quote that nothing follows
      have htake : s.take n = [] := by
        have hone := c.utf8Size_pos
        have hlen := length_le_byteLength (s.take n)
        rw [byteLength_cons] at hm
        exact List.length_eq_zero_iff.1 (by omega)
      have hs : s = [] := by
        rcases List.take_eq_nil_iff.1 htake with rfl | hs
        · exact eq_nil_of_literalWidth? hn
        · exact hs
      rw [hs, List.drop_nil, mask_nil]
      rfl

/-- A gap that a literal follows goes on in the mask until that runs out. -/
theorem wrongGap_mask_of_beginsLiteral {rest : Text}
    (h : beginsLiteral (rest.dropWhile isWhite) = true) :
    WrongGap (mask rest) ↔
      '\n' ∉ rest.takeWhile isWhite ∧ ¬ RunsOut (mask (rest.dropWhile isWhite)) := by
  obtain ⟨hmask, hgap⟩ := takeWhile_mask rest
  obtain ⟨t, ht, hone⟩ := mask_of_beginsLiteral h
  generalize rest.takeWhile isWhite = gap at hmask hgap ⊢
  generalize mask (rest.dropWhile isWhite) = masked at hmask hgap ht ⊢
  subst ht
  have hspace : isWhite ' ' = true := by decide
  constructor
  · rintro ⟨-, hbreak, hall⟩
    rw [hgap, List.mem_append, not_or] at hbreak
    rw [hgap, hmask] at hall
    exact ⟨hbreak.1, not_or.2 ⟨hbreak.2, fun heq => hall (by rw [heq])⟩⟩
  · rintro ⟨hbreak, hrun⟩
    obtain ⟨hrun, hall⟩ := not_or.1 hrun
    refine ⟨fun heq => hall ?_, ?_, fun heq => hall ?_⟩
    · rw [hgap, List.takeWhile_cons_of_pos hspace] at heq
      have hnil : t.takeWhile isWhite = [] := by
        have hlen := congrArg List.length heq
        simp only [List.length_append, List.length_cons, List.length_nil] at hlen
        exact List.length_eq_zero_iff.1 (by omega)
      rw [hone hnil, List.takeWhile_cons_of_pos hspace]
      rfl
    · rw [hgap, List.mem_append, not_or]
      exact ⟨hbreak, hrun⟩
    · rw [hgap, hmask] at heq
      exact List.append_cancel_left heq

/-- **The mask keeps the verdict on a gap** unless a literal hides it. -/
theorem wrongGap_iff_mask (rest : Text) : (WrongGap rest ↔ WrongGap (mask rest)) ↔ ¬ Hidden rest := by
  cases hliteral : beginsLiteral (rest.dropWhile isWhite) with
  | false =>
    rw [wrongGap_mask_of_not_beginsLiteral hliteral]
    exact iff_of_true Iff.rfl fun h => by simpa [hliteral] using h.literal
  | true =>
    have htail : rest.dropWhile isWhite ≠ [] := fun hnil => by simp [hnil, beginsLiteral] at hliteral
    have hhidden : Hidden rest ↔ '\n' ∉ rest.takeWhile isWhite ∧
        ¬ (rest.takeWhile isWhite = [' '] ↔ RunsOut (mask (rest.dropWhile isWhite))) :=
      ⟨fun h => ⟨h.noBreak, h.differs⟩, fun h => ⟨hliteral, h.1, h.2⟩⟩
    rw [wrongGap_iff htail, wrongGap_mask_of_beginsLiteral hliteral, hhidden]
    grind

/-! ## The first comma -/

theorem CommaAt.eq_of_byteLength {value front rest front' rest' : Text}
    (h : CommaAt value front rest) (h' : CommaAt value front' rest')
    (hlen : byteLength front = byteLength front') : rest = rest' := by
  have hsplit := splitBytes?_append front (',' :: rest)
  have hsplit' := splitBytes?_append front' (',' :: rest')
  rw [← h.eq, hlen] at hsplit
  rw [← h'.eq, hsplit] at hsplit'
  exact (List.cons.inj (Prod.mk.inj (Option.some.inj hsplit')).2).2

/-- If a comma is wrong, there is a first one. -/
theorem exists_firstComma (wrong : Text → Prop) {value front rest : Text}
    (h : CommaAt value front rest) (hwrong : wrong rest) :
    ∃ offset, FirstComma wrong value offset := by
  induction hlen : front.length using Nat.strongRecOn generalizing front rest with
  | ind len ih =>
  by_cases hfirst : ∀ a b, CommaAt value a b → a.length < front.length → ¬ wrong b
  · exact ⟨_, front, rest, h, rfl, hwrong, hfirst⟩
  · simp only [Classical.not_forall, Classical.not_not] at hfirst
    obtain ⟨a, b, hab, hlt, hb⟩ := hfirst
    exact ih a.length (hlen ▸ hlt) hab hb rfl

/-- Two verdicts agree on a comma if neither faults one before it. -/
def Agree (p q : Text → Prop) (value : Text) : Prop :=
  ∀ front rest, CommaAt value front rest →
    (∀ front' rest', CommaAt value front' rest' → front'.length < front.length →
      ¬ p rest' ∧ ¬ q rest') → (p rest ↔ q rest)

theorem Agree.symm {p q : Text → Prop} {value : Text} (h : Agree p q value) : Agree q p value :=
  fun front rest hcomma hclean =>
    (h front rest hcomma fun a b hab hlt => (hclean a b hab hlt).symm).symm

theorem Agree.firstComma {p q : Text → Prop} {value : Text} (h : Agree p q value) {offset : Nat}
    (hp : FirstComma p value offset) : FirstComma q value offset := by
  obtain ⟨front, rest, hcomma, rfl, hp, hfirst⟩ := hp
  have hclean : ∀ a b, CommaAt value a b → a.length < front.length → ¬ q b := by
    -- by induction on the place: an earlier comma that only `q` faults would be the first of all
    intro a
    induction hlen : a.length using Nat.strongRecOn generalizing a with
    | ind len ih =>
    intro b hab hlt hq
    refine hfirst a b hab (by omega) ((h a b hab fun a' b' hab' hlt' => ⟨?_, ?_⟩).2 hq)
    · exact hfirst a' b' hab' (by omega)
    · exact ih _ (by omega) a' rfl b' hab' (by omega)
  refine ⟨front, rest, hcomma, rfl, (h front rest hcomma fun a b hab hlt => ?_).1 hp, hclean⟩
  exact ⟨hfirst a b hab hlt, hclean a b hab hlt⟩

theorem Agree.of_firstComma {p q : Text → Prop} {value front rest : Text}
    (h : ∀ offset, FirstComma p value offset → FirstComma q value offset)
    (hcomma : CommaAt value front rest)
    (hclean : ∀ front' rest', CommaAt value front' rest' → front'.length < front.length → ¬ p rest')
    (hp : p rest) : q rest := by
  obtain ⟨front', rest', hcomma', hlen, hq, -⟩ := h _ ⟨front, rest, hcomma, rfl, hp, hclean⟩
  rwa [hcomma.eq_of_byteLength hcomma' hlen.symm]

/-- Two verdicts find the same first comma exactly if they agree. -/
theorem agree_iff (p q : Text → Prop) (value : Text) :
    Agree p q value ↔ ∀ offset, FirstComma p value offset ↔ FirstComma q value offset := by
  constructor
  · exact fun h offset => ⟨h.firstComma, h.symm.firstComma⟩
  · intro h front rest hcomma hclean
    constructor
    · exact Agree.of_firstComma (fun offset => (h offset).1) hcomma
        fun a b hab hlt => (hclean a b hab hlt).1
    · exact Agree.of_firstComma (fun offset => (h offset).2) hcomma
        fun a b hab hlt => (hclean a b hab hlt).2

theorem badComma?_eq_none_iff (value : Text) :
    badComma? value = none ↔ ∀ front rest, CommaAt value front rest → ¬ WrongGap (mask rest) := by
  constructor
  · intro hnone front rest hcomma hwrong
    obtain ⟨offset, hfirst⟩ :=
      exists_firstComma (fun rest => WrongGap (mask rest)) hcomma hwrong
    rw [← badComma?_eq_some_iff, hnone] at hfirst
    cases hfirst
  · intro hgood
    cases hfound : badComma? value with
    | none => rfl
    | some offset =>
      obtain ⟨front, rest, hcomma, -, hwrong, -⟩ := (badComma?_eq_some_iff value offset).1 hfound
      exact absurd hwrong (hgood front rest hcomma)

/-- **The comma of a finding.** The search finds the first comma outside literals with a wrong gap
behind it in the masked value, and nothing if there is none. That is the first with a wrong gap in the
value itself exactly if no literal hides the gap of a comma before which all gaps are right by both. -/
theorem badComma?_gap (value : Text) :
    (∀ offset, badComma? value = some offset ↔
      FirstComma (fun rest => WrongGap (mask rest)) value offset) ∧
    (badComma? value = none ↔ ∀ front rest, CommaAt value front rest → ¬ WrongGap (mask rest)) ∧
    ((∀ offset, badComma? value = some offset ↔ FirstComma WrongGap value offset) ↔
      ∀ front rest, CommaAt value front rest →
        (∀ front' rest', CommaAt value front' rest' → front'.length < front.length →
          ¬ WrongGap rest' ∧ ¬ WrongGap (mask rest')) → ¬ Hidden rest) := by
  refine ⟨badComma?_eq_some_iff value, badComma?_eq_none_iff value, ?_⟩
  have hagree := agree_iff WrongGap (fun rest => WrongGap (mask rest)) value
  simp only [Agree, wrongGap_iff_mask] at hagree
  rw [hagree]
  refine forall_congr' fun offset => ?_
  rw [badComma?_eq_some_iff]
  exact iff_comm

/-- A string hides that no space stands before it. -/
theorem badComma?_string :
    badComma? ['b', ',', '"', 'x', '"'] = none ∧
      FirstComma WrongGap ['b', ',', '"', 'x', '"'] 1 := by
  have hcomma : CommaAt ['b', ',', '"', 'x', '"'] ['b'] ['"', 'x', '"'] :=
    ⟨rfl, .char (by decide) (.here _)⟩
  refine ⟨by decide +kernel, _, _, hcomma, rfl, ⟨by decide, by decide, by decide⟩, ?_⟩
  intro front rest h hlt
  obtain rfl : front = [] := List.length_eq_zero_iff.1 (Nat.lt_one_iff.1 hlt)
  exact absurd (List.cons.inj h.eq).1 (by decide)

end LessStyle.Rule
