import LessStyle.Proofs.Value.Numeral
import Mathlib.Computability.RegularExpressions
import Mathlib.Tactic.IntervalCases

/-!
# The grammar of numerals

Numerals are the words of the regular expression `[+-]?(D+(.D*)?|.D+)([eE][+-]?D+)?` (`grammar`), which
are the texts of the well-formed numerals (`mem_grammar_iff`).

`read?` takes one part after the other and never goes back. That this finds the longest numeral is shown
from the other side: a well-formed numeral with anything behind it is read to its end at least
(`WellFormed.exists_read?`), for before the letter of an exponent all parts are read as they are
written, and without an exponent only the last part can become longer.
-/

namespace LessStyle.Numeral

open RegularExpression (matches'_add matches'_mul matches'_star matches'_epsilon)

/-! ## The grammar -/

/-- Any one of the characters. -/
def oneOf (cs : List Char) : RegularExpression Char := (cs.map .char).sum

def optional (r : RegularExpression Char) : RegularExpression Char := 1 + r

def oneOrMore (r : RegularExpression Char) : RegularExpression Char := r * r.star

def digit : RegularExpression Char := oneOf ['0', '1', '2', '3', '4', '5', '6', '7', '8', '9']

def plusOrMinus : RegularExpression Char := oneOf ['+', '-']

/-- Digits, with a point somewhere or without: `D+(.D*)?|.D+`. -/
def mantissa : RegularExpression Char :=
  oneOrMore digit * optional (.char '.' * digit.star) + .char '.' * oneOrMore digit

/-- The letter of an exponent with digits behind it: `[eE][+-]?D+`. -/
def power : RegularExpression Char := oneOf ['e', 'E'] * optional plusOrMinus * oneOrMore digit

/-- How numerals are written: `[+-]?(D+(.D*)?|.D+)([eE][+-]?D+)?`. -/
def grammar : RegularExpression Char := optional plusOrMinus * mantissa * optional power

theorem mem_oneOf {cs : List Char} {s : Text} :
    s ∈ (oneOf cs).matches' ↔ ∃ c ∈ cs, s = [c] := by
  induction cs with
  | nil => exact ⟨fun h => absurd h (Language.notMem_zero s), by simp⟩
  | cons c cs ih =>
    have hcons : oneOf (c :: cs) = .char c + oneOf cs := by
      rw [oneOf, List.map_cons, List.sum_cons, oneOf]
    rw [hcons, matches'_add, Language.mem_add, ih, List.exists_mem_cons_iff]
    rfl

theorem mem_optional {r : RegularExpression Char} {s : Text} :
    s ∈ (optional r).matches' ↔ s = [] ∨ s ∈ r.matches' := by
  rw [optional, matches'_add, Language.mem_add, matches'_epsilon, Language.mem_one]

theorem mem_digit {s : Text} : s ∈ digit.matches' ↔ ∃ c : Char, c.isDigit = true ∧ s = [c] := by
  rw [digit, mem_oneOf]
  refine exists_congr fun c => and_congr_left fun _ => ⟨?_, fun hc => ?_⟩
  · have hall : ['0', '1', '2', '3', '4', '5', '6', '7', '8', '9'].all Char.isDigit = true := by decide
    exact fun hc => List.all_eq_true.1 hall c hc
  · simp only [Char.isDigit, Bool.and_eq_true, decide_eq_true_eq] at hc
    have hlow : 48 ≤ c.toNat := hc.1
    have hhigh : c.toNat ≤ 57 := hc.2
    rw [← Char.ofNat_toNat c]
    interval_cases c.toNat <;> decide

theorem mem_star_digit {s : Text} : s ∈ digit.star.matches' ↔ ∀ c ∈ s, c.isDigit = true := by
  rw [matches'_star, Language.mem_kstar]
  constructor
  · rintro ⟨parts, rfl, hparts⟩ c hc
    obtain ⟨part, hpart, hc⟩ := List.mem_flatten.1 hc
    obtain ⟨d, hd, rfl⟩ := mem_digit.1 (hparts part hpart)
    rwa [List.mem_singleton.1 hc]
  · intro h
    refine ⟨s.map ([·]), by rw [← List.flatMap_def, List.flatMap_singleton'], ?_⟩
    intro part hpart
    obtain ⟨c, hc, rfl⟩ := List.mem_map.1 hpart
    exact mem_digit.2 ⟨c, h c hc, rfl⟩

theorem mem_oneOrMore_digit {s : Text} :
    s ∈ (oneOrMore digit).matches' ↔ s ≠ [] ∧ ∀ c ∈ s, c.isDigit = true := by
  rw [oneOrMore, matches'_mul, Language.mem_mul]
  constructor
  · rintro ⟨first, hfirst, t, ht, rfl⟩
    obtain ⟨c, hc, rfl⟩ := mem_digit.1 hfirst
    exact ⟨by simp, List.forall_mem_cons.2 ⟨hc, mem_star_digit.1 ht⟩⟩
  · rintro ⟨hne, h⟩
    cases s with
    | nil => exact absurd rfl hne
    | cons c s =>
      obtain ⟨hc, hs⟩ := List.forall_mem_cons.1 h
      exact ⟨[c], mem_digit.2 ⟨c, hc, rfl⟩, s, mem_star_digit.2 hs, rfl⟩

/-! ## Well-formed numerals -/

/-- No sign, or one of the two. -/
def IsSign (sign : Option Char) : Prop := sign ∈ [none, some '+', some '-']

/-- The digits on both sides of a point, or of none: there are some on one side. -/
structure IsMantissa (whole : Text) (fraction : Option Text) : Prop where
  isDigit_whole : ∀ c ∈ whole, c.isDigit = true
  isDigit_fraction : ∀ ds ∈ fraction, ∀ c ∈ ds, c.isDigit = true
  exists_digit : whole = [] → ∃ ds ∈ fraction, ds ≠ []

/-- Without a point, there are digits. -/
theorem IsMantissa.ne_nil {whole : Text} (h : IsMantissa whole none) : whole ≠ [] := by
  intro hnil
  obtain ⟨_, ⟨⟩, -⟩ := h.exists_digit hnil

theorem IsMantissa.fraction_ne_nil {whole ds : Text} (h : IsMantissa whole (some ds))
    (hnil : whole = []) : ds ≠ [] := by
  obtain ⟨_, ⟨⟩, hne⟩ := h.exists_digit hnil
  exact hne

/-- The letter, the sign and the digits of an exponent. -/
structure IsPower (e : Char × Option Char × Text) : Prop where
  letter : e.1 ∈ ['e', 'E']
  sign : IsSign e.2.1
  nonempty : e.2.2 ≠ []
  isDigit : ∀ c ∈ e.2.2, c.isDigit = true

/-- Every part is what it stands for. -/
structure WellFormed (n : Numeral) : Prop where
  sign : IsSign n.sign
  mantissa : IsMantissa n.whole n.fraction
  exponent : ∀ e ∈ n.exponent, IsPower e

def fractionText (fraction : Option Text) : Text := fraction.elim [] ('.' :: ·)

def exponentText : Option (Char × Option Char × Text) → Text
  | some (c, sign, ds) => c :: (sign.toList ++ ds)
  | none => []

theorem text_eq (n : Numeral) :
    n.text = n.sign.toList ++ (n.whole ++ fractionText n.fraction) ++ exponentText n.exponent := by
  obtain ⟨sign, whole, fraction, exponent⟩ := n
  cases fraction <;> cases exponent <;> simp [text, fractionText, exponentText]

theorem length_text (n : Numeral) :
    n.text.length = n.sign.toList.length + (n.whole.length + (fractionText n.fraction).length) +
      (exponentText n.exponent).length := by
  rw [text_eq, List.length_append, List.length_append, List.length_append]

theorem mem_optional_plusOrMinus {s : Text} :
    s ∈ (optional plusOrMinus).matches' ↔ ∃ sign, IsSign sign ∧ sign.toList = s := by
  rw [mem_optional, plusOrMinus, mem_oneOf]
  simp [IsSign, eq_comm]

theorem mem_mantissa {s : Text} :
    s ∈ mantissa.matches' ↔
      ∃ whole fraction, IsMantissa whole fraction ∧ whole ++ fractionText fraction = s := by
  rw [mantissa, matches'_add, Language.mem_add, matches'_mul, matches'_mul, Language.mem_mul,
    Language.mem_mul]
  constructor
  · rintro (⟨whole, hwhole, t, ht, rfl⟩ | ⟨t, rfl, ds, hds, rfl⟩)
    · obtain ⟨hne, hwhole⟩ := mem_oneOrMore_digit.1 hwhole
      obtain rfl | ⟨t, rfl, ds, hds, rfl⟩ := mem_optional.1 ht
      · exact ⟨whole, none, ⟨hwhole, nofun, fun h => absurd h hne⟩, rfl⟩
      · refine ⟨whole, some ds, ⟨hwhole, ?_, fun h => absurd h hne⟩, rfl⟩
        rintro _ ⟨⟩
        exact mem_star_digit.1 hds
    · obtain ⟨hne, hds⟩ := mem_oneOrMore_digit.1 hds
      refine ⟨[], some ds, ⟨nofun, ?_, fun _ => ⟨ds, rfl, hne⟩⟩, rfl⟩
      rintro _ ⟨⟩
      exact hds
  · rintro ⟨whole, fraction, h, rfl⟩
    cases fraction with
    | none =>
      exact .inl ⟨whole, mem_oneOrMore_digit.2 ⟨h.ne_nil, h.isDigit_whole⟩, [],
        mem_optional.2 (.inl rfl), rfl⟩
    | some ds =>
      have hds := h.isDigit_fraction ds rfl
      by_cases hnil : whole = []
      · rw [hnil]
        exact .inr ⟨['.'], rfl, ds, mem_oneOrMore_digit.2 ⟨h.fraction_ne_nil hnil, hds⟩, rfl⟩
      · refine .inl ⟨whole, mem_oneOrMore_digit.2 ⟨hnil, h.isDigit_whole⟩, '.' :: ds, ?_, rfl⟩
        exact mem_optional.2 (.inr ⟨['.'], rfl, ds, mem_star_digit.2 hds, rfl⟩)

theorem mem_optional_power {s : Text} :
    s ∈ (optional power).matches' ↔
      ∃ exponent : Option (Char × Option Char × Text),
        (∀ e ∈ exponent, IsPower e) ∧ exponentText exponent = s := by
  rw [mem_optional, power, matches'_mul, matches'_mul, Language.mem_mul]
  constructor
  · rintro (rfl | ⟨_, ⟨_, hletter, _, hmark, rfl⟩, ds, hds, rfl⟩)
    · exact ⟨none, nofun, rfl⟩
    · obtain ⟨c, hc, rfl⟩ := mem_oneOf.1 hletter
      obtain ⟨sign, hsign, rfl⟩ := mem_optional_plusOrMinus.1 hmark
      obtain ⟨hne, hds⟩ := mem_oneOrMore_digit.1 hds
      refine ⟨some (c, sign, ds), ?_, rfl⟩
      rintro _ ⟨⟩
      exact ⟨hc, hsign, hne, hds⟩
  · rintro ⟨exponent, h, rfl⟩
    cases exponent with
    | none => exact .inl rfl
    | some e =>
      have he := h e rfl
      refine .inr ⟨e.1 :: e.2.1.toList, ⟨[e.1], mem_oneOf.2 ⟨e.1, he.letter, rfl⟩, e.2.1.toList,
        mem_optional_plusOrMinus.2 ⟨e.2.1, he.sign, rfl⟩, rfl⟩, e.2.2, ?_, rfl⟩
      exact mem_oneOrMore_digit.2 ⟨he.nonempty, he.isDigit⟩

/-- **The words of the grammar are the texts of the well-formed numerals.** -/
theorem mem_grammar_iff {s : Text} :
    s ∈ grammar.matches' ↔ ∃ n : Numeral, n.WellFormed ∧ n.text = s := by
  rw [grammar, matches'_mul, matches'_mul, Language.mem_mul]
  constructor
  · rintro ⟨_, ⟨_, hmark, _, hdigits, rfl⟩, _, hpower, rfl⟩
    obtain ⟨sign, hsign, rfl⟩ := mem_optional_plusOrMinus.1 hmark
    obtain ⟨whole, fraction, hmantissa, rfl⟩ := mem_mantissa.1 hdigits
    obtain ⟨exponent, hexponent, rfl⟩ := mem_optional_power.1 hpower
    exact ⟨⟨sign, whole, fraction, exponent⟩, ⟨hsign, hmantissa, hexponent⟩, text_eq _⟩
  · rintro ⟨n, h, rfl⟩
    rw [text_eq]
    exact ⟨_, ⟨_, mem_optional_plusOrMinus.2 ⟨n.sign, h.sign, rfl⟩, _,
      mem_mantissa.2 ⟨n.whole, n.fraction, h.mantissa, rfl⟩, rfl⟩, _,
      mem_optional_power.2 ⟨n.exponent, h.exponent, rfl⟩, rfl⟩

/-! ## What is read -/

theorem isSign_sign? (s : Text) : IsSign (sign? s).1 := by
  cases s with
  | nil => simp [sign?, IsSign]
  | cons c s =>
    rw [sign?]
    split
    · next hc =>
      rw [Bool.or_eq_true, beq_iff_eq, beq_iff_eq] at hc
      rcases hc with rfl | rfl <;> simp [IsSign]
    · simp [IsSign]

theorem fraction?_point (whole s : Text) :
    fraction? whole ('.' :: s) =
      if (digits s).1.isEmpty && whole.isEmpty then (none, '.' :: s)
      else (some (digits s).1, (digits s).2) := rfl

theorem fraction?_of_head? {s : Text} (h : s.head? ≠ some '.') (whole : Text) :
    fraction? whole s = (none, s) := by
  unfold fraction?
  split
  · exact absurd rfl h
  · rfl

/-- The digits before a fraction that is read and its own make a mantissa, if there are any. -/
theorem isMantissa_fraction? {whole : Text} (hwhole : ∀ c ∈ whole, c.isDigit = true) (s : Text)
    (h : ¬ (whole.isEmpty && (fraction? whole s).1.isNone) = true) :
    IsMantissa whole (fraction? whole s).1 := by
  -- no point is taken if none is there, and none without digits on either side of it
  have hnone (hne : ¬ (whole.isEmpty && (none : Option Text).isNone) = true) :
      IsMantissa whole none :=
    ⟨hwhole, nofun, fun hnil => absurd (by rw [hnil]; rfl) hne⟩
  by_cases hpoint : s.head? = some '.'
  · obtain ⟨s, rfl⟩ := List.head?_eq_some_iff.1 hpoint
    rw [fraction?_point] at h ⊢
    by_cases hempty : ((digits s).1.isEmpty && whole.isEmpty) = true
    · rw [if_pos hempty] at h ⊢
      exact hnone h
    · rw [if_neg hempty]
      refine ⟨hwhole, ?_, ?_⟩
      · rintro _ ⟨⟩
        exact isDigit_digits s
      · rintro rfl
        exact ⟨_, rfl, by simpa using hempty⟩
  · rw [fraction?_of_head? hpoint] at h ⊢
    exact hnone h

theorem isPower_exponent? (s : Text) : ∀ e ∈ exponent? s, IsPower e := by
  unfold exponent?
  split
  · next c s =>
    split
    · next hc =>
      dsimp only
      split
      · nofun
      · next hne =>
        rintro _ ⟨⟩
        exact ⟨by simpa using hc, isSign_sign? s, by simpa using hne, isDigit_digits _⟩
    · nofun
  · nofun

/-- An exponent that is read stands at the start of the text. -/
theorem exponentText_exponent? (s : Text) : exponentText (exponent? s) <+: s := by
  unfold exponent?
  split
  · next c s =>
    split
    · dsimp only
      split
      · exact List.nil_prefix
      · -- the sign and the digits, with what stands behind the digits
        have hs : (sign? s).1.toList ++ (digits (sign? s).2).1 ++ (digits (sign? s).2).2 = s := by
          rw [List.append_assoc]
          exact (congrArg _ List.takeWhile_append_dropWhile).trans (eq_of_sign? s).1.symm
        exact (List.prefix_cons_inj c).2 ⟨_, hs⟩
    · exact List.nil_prefix
  · exact List.nil_prefix

/-- What is read is a word of the grammar at the start of the text. -/
theorem wellFormed_of_read? {s : Text} {n : Numeral} (h : read? s = some n) :
    n.WellFormed ∧ n.text <+: s := by
  unfold read? at h
  dsimp only at h
  split at h
  · cases h
  · next hsome =>
    obtain rfl := Option.some.inj h
    refine ⟨⟨isSign_sign? s, isMantissa_fraction? (isDigit_digits _) _ hsome,
      isPower_exponent? _⟩, ?_⟩
    obtain ⟨rest, hrest⟩ :=
      exponentText_exponent? (fraction? (digits (sign? s).2).1 (digits (sign? s).2).2).2
    refine ⟨rest, ?_⟩
    simp only [text_eq, List.append_assoc, hrest]
    exact (eq_of_parts s).symm

/-! ## Nothing longer can be read -/

theorem not_isSign_of_isDigit {c : Char} (hc : c.isDigit = true) : ¬ IsSign (some c) := by
  simp only [IsSign, List.mem_cons, Option.some.injEq, List.not_mem_nil, or_false, reduceCtorEq,
    false_or]
  rintro (rfl | rfl) <;> cases hc

theorem digits_append {ds : Text} (hds : ∀ c ∈ ds, c.isDigit = true) (s : Text) :
    digits (ds ++ s) = (ds ++ (digits s).1, (digits s).2) := by
  rw [digits, List.takeWhile_append_of_pos hds, List.dropWhile_append_of_pos hds]
  rfl

theorem digits_of_head? {s : Text} (h : ∀ c ∈ s.head?, c.isDigit = false) : digits s = ([], s) := by
  cases s with
  | nil => rfl
  | cons c s =>
    have hc : ¬ c.isDigit = true := by simp [h c rfl]
    rw [digits, List.takeWhile_cons_of_neg hc, List.dropWhile_cons_of_neg hc]

/-- A sign is read as it is written before what begins with no sign. -/
theorem sign?_append {sign : Option Char} (hsign : IsSign sign) {s : Text}
    (hs : ∀ c ∈ s.head?, ¬ IsSign (some c)) : sign? (sign.toList ++ s) = (sign, s) := by
  simp only [IsSign, List.mem_cons, List.not_mem_nil, or_false] at hsign
  rcases hsign with rfl | rfl | rfl
  · cases s with
    | nil => rfl
    | cons c s =>
      have hc : ¬ (c == '+' || c == '-') = true := by simpa [IsSign] using hs c rfl
      exact if_neg hc
  · rfl
  · rfl

theorem IsMantissa.fraction?_eq {whole ds : Text} (h : IsMantissa whole (some ds)) (s : Text) :
    fraction? whole ('.' :: (ds ++ s)) = (some (ds ++ (digits s).1), (digits s).2) := by
  rw [fraction?_point, digits_append (h.isDigit_fraction ds rfl), if_neg]
  intro hempty
  simp only [Bool.and_eq_true, List.isEmpty_iff, List.append_eq_nil_iff] at hempty
  exact h.fraction_ne_nil hempty.2 hempty.1.1

theorem digits_fractionText (ds s : Text) :
    digits (fractionText (some ds) ++ s) = ([], '.' :: (ds ++ s)) := rfl

theorem exponent?_append {e : Char × Option Char × Text} (he : IsPower e) (s : Text) :
    exponent? (exponentText (some e) ++ s) = some (e.1, e.2.1, e.2.2 ++ (digits s).1) := by
  obtain ⟨c, sign, ds⟩ := e
  obtain ⟨hletter, hsign, hne, hds⟩ := he
  have hc : (c == 'e' || c == 'E') = true := by simpa using hletter
  have hsign : sign? (sign.toList ++ (ds ++ s)) = (sign, ds ++ s) := by
    refine sign?_append hsign fun d hd => not_isSign_of_isDigit ?_
    rw [List.head?_append_of_ne_nil _ hne] at hd
    exact hds d (List.mem_of_mem_head? hd)
  rw [exponentText, List.cons_append, List.append_assoc, exponent?, if_pos hc, hsign]
  dsimp only
  rw [digits_append hds, if_neg (by simp [hne])]

section Parts

variable {sign : Option Char} {whole s : Text} {fraction : Option Text}

/-- No sign stands where the digits or the point of a mantissa should. -/
theorem IsMantissa.not_isSign (h : IsMantissa whole fraction) (s : Text) :
    ∀ c ∈ (whole ++ (fractionText fraction ++ s)).head?, ¬ IsSign (some c) := by
  intro c hc
  cases whole with
  | nil =>
    obtain ⟨ds, ⟨⟩, -⟩ := h.exists_digit rfl
    obtain rfl := Option.some.inj hc
    simp [IsSign]
  | cons d whole =>
    obtain rfl := Option.some.inj hc
    exact not_isSign_of_isDigit (h.isDigit_whole _ List.mem_cons_self)

theorem read?_append (hsign : IsSign sign) (hwhole : ∀ c ∈ whole, c.isDigit = true)
    (hs : ∀ c ∈ (whole ++ s).head?, ¬ IsSign (some c)) :
    read? (sign.toList ++ (whole ++ s)) =
      let (fraction, rest) := fraction? (whole ++ (digits s).1) (digits s).2
      if (whole ++ (digits s).1).isEmpty && fraction.isNone then none
      else some ⟨sign, whole ++ (digits s).1, fraction, exponent? rest⟩ := by
  rw [read?, sign?_append hsign hs]
  dsimp only
  rw [digits_append hwhole]

/-- A mantissa is read as it is written before what begins with no digit and no point. -/
theorem read?_mantissa (hsign : IsSign sign) (h : IsMantissa whole fraction)
    (hs : ∀ c ∈ s.head?, c.isDigit = false ∧ c ≠ '.') :
    read? (sign.toList ++ (whole ++ (fractionText fraction ++ s))) =
      some ⟨sign, whole, fraction, exponent? s⟩ := by
  have hdigits : digits s = ([], s) := digits_of_head? fun c hc => (hs c hc).1
  rw [read?_append hsign h.isDigit_whole (h.not_isSign _)]
  cases fraction with
  | none =>
    have hpoint : s.head? ≠ some '.' := fun hhead => (hs '.' hhead).2 rfl
    rw [show fractionText none ++ s = s from rfl, hdigits, List.append_nil,
      fraction?_of_head? hpoint]
    exact if_neg (by simp [h.ne_nil])
  | some ds =>
    rw [digits_fractionText, List.append_nil, h.fraction?_eq, hdigits, List.append_nil]
    exact if_neg (by simp)

/-- Before an exponent a mantissa is read as it is written, and all digits of the exponent are. -/
theorem read?_power {e : Char × Option Char × Text} (hsign : IsSign sign)
    (h : IsMantissa whole fraction) (he : IsPower e) (s : Text) :
    read? (sign.toList ++ (whole ++ (fractionText fraction ++ (exponentText (some e) ++ s)))) =
      some ⟨sign, whole, fraction, some (e.1, e.2.1, e.2.2 ++ (digits s).1)⟩ := by
  rw [read?_mantissa hsign h, exponent?_append he]
  intro c hc
  have hletter : c ∈ ['e', 'E'] := Option.some.inj hc ▸ he.letter
  simp only [List.mem_cons, List.not_mem_nil, or_false] at hletter
  rcases hletter with rfl | rfl <;> decide

/-- No less than a mantissa is read, whatever stands behind it. -/
theorem read?_mantissa_le (hsign : IsSign sign) (h : IsMantissa whole fraction) (s : Text) :
    ∃ n, read? (sign.toList ++ (whole ++ (fractionText fraction ++ s))) = some n ∧
      n.sign = sign ∧ whole.length ≤ n.whole.length ∧
      (fractionText fraction).length ≤ (fractionText n.fraction).length := by
  rw [read?_append hsign h.isDigit_whole (h.not_isSign _)]
  cases fraction with
  | none =>
    refine ⟨_, if_neg (by simp [h.ne_nil]), rfl, ?_, Nat.zero_le _⟩
    exact (List.prefix_append _ _).length_le
  | some ds =>
    rw [digits_fractionText, List.append_nil, h.fraction?_eq]
    refine ⟨_, if_neg (by simp), rfl, Nat.le_refl _, ?_⟩
    exact Nat.succ_le_succ (List.prefix_append _ _).length_le

end Parts

/-- **No less than a well-formed numeral is read**, whatever stands behind it. -/
theorem WellFormed.exists_read? {m : Numeral} (h : m.WellFormed) (s : Text) :
    ∃ n, read? (m.text ++ s) = some n ∧ m.text.length ≤ n.text.length := by
  rw [length_text, text_eq, List.append_assoc, List.append_assoc, List.append_assoc]
  cases hexponent : m.exponent with
  | none =>
    -- more digits, a point or an exponent may follow and be read as well
    obtain ⟨n, hn, hsign, hwhole, hfraction⟩ := read?_mantissa_le h.sign h.mantissa s
    refine ⟨n, hn, ?_⟩
    rw [length_text, hsign, show exponentText none = [] from rfl, List.length_nil]
    omega
  | some e =>
    -- only more digits of the exponent may
    obtain ⟨c, sign, ds⟩ := e
    refine ⟨_, read?_power h.sign h.mantissa (h.exponent _ hexponent) s, ?_⟩
    simp only [length_text, exponentText, List.length_append, List.length_cons]
    omega

/-- A well-formed numeral is read from its own text. -/
theorem WellFormed.read?_text {n : Numeral} (h : n.WellFormed) : read? n.text = some n := by
  rw [text_eq, List.append_assoc, List.append_assoc]
  cases hexponent : n.exponent with
  | none =>
    rw [show exponentText none = [] from rfl, read?_mantissa h.sign h.mantissa (by simp), exponent?,
      ← hexponent]
  | some e =>
    have hread := read?_power h.sign h.mantissa (h.exponent e hexponent) []
    rw [List.append_nil, show (digits []).1 = [] from rfl, List.append_nil] at hread
    rw [hread, ← hexponent]

/-- A word of the grammar at the start of a text, and none of them is longer. -/
structure IsLongest (s p : Text) : Prop where
  isPrefix : p <+: s
  mem : p ∈ grammar.matches'
  length_le : ∀ q, q <+: s → q ∈ grammar.matches' → q.length ≤ p.length

theorem exists_read? {s p : Text} (hp : p <+: s) (hmem : p ∈ grammar.matches') :
    ∃ n, read? s = some n ∧ p.length ≤ n.text.length := by
  obtain ⟨rest, rfl⟩ := hp
  obtain ⟨m, hm, rfl⟩ := mem_grammar_iff.1 hmem
  exact hm.exists_read? rest

theorem isLongest_of_read? {s : Text} {n : Numeral} (h : read? s = some n) : IsLongest s n.text := by
  obtain ⟨hn, hs⟩ := wellFormed_of_read? h
  refine ⟨hs, mem_grammar_iff.2 ⟨n, hn, rfl⟩, fun q hq hmem => ?_⟩
  obtain ⟨m, hm, hle⟩ := exists_read? hq hmem
  obtain rfl := Option.some.inj (h.symm.trans hm)
  exact hle

theorem read?_eq_none_iff {s : Text} :
    read? s = none ↔ ∀ p, p <+: s → p ∉ grammar.matches' := by
  constructor
  · intro h p hp hmem
    obtain ⟨n, hn, -⟩ := exists_read? hp hmem
    rw [h] at hn
    cases hn
  · intro h
    refine Option.eq_none_iff_forall_ne_some.2 fun n hn => ?_
    obtain ⟨hs, hmem, -⟩ := isLongest_of_read? hn
    exact h n.text hs hmem

end LessStyle.Numeral
