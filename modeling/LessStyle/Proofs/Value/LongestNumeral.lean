import LessStyle.Proofs.Value.ItemSearch
import LessStyle.Proofs.Value.NumeralGrammar

/-!
# Converting the longest numeral

`leadingNumber?` reads characters. The scanner of this module walks over the bytes of a text: `stop?`
is the offset where the longest numeral ends, and only then the text is cut there and what was cut off
is converted, by a function that may refuse it (`convertLongest?`). The offset is where the numeral
read from the characters ends (`stop?_utf8`), so the cut never fails, and what is converted is always
the longest word of the grammar at the start of the text (`convertLongest?_eq`, `answers_read?`).
-/

namespace LessStyle.Numeral

open Text
open Item (isDigitByte sees_isDigitByte)

/-! ## A scanner on bytes -/

section Stops

variable (b : List UInt8)

/-- Behind a sign at the offset, if there is one. -/
def signStop (k : Nat) : Nat := if b[k]?.any (isOneOf ['+', '-']) then k + 1 else k

/-- Behind the digits that begin at the offset. -/
def digitsStop (k : Nat) : Nat :=
  if b[k]?.any isDigitByte then digitsStop (k + 1) else k
termination_by b.length - k
decreasing_by
  next hany =>
    obtain ⟨x, hx, -⟩ := (Option.any_eq_true ..).1 hany
    have := (List.getElem?_eq_some_iff.1 hx).1
    omega

/-- The number of digits so far and the offset behind a point and its digits, if they are there. A
point without digits is passed over only behind digits. -/
def fractionStop (count k : Nat) : Nat × Nat :=
  if b[k]? == some (code '.') then
    let last := digitsStop b (k + 1)
    if k + 1 < last then (count + (last - (k + 1)), last)
    else if 0 < count then (count, k + 1)
    else (count, k)
  else (count, k)

/-- Behind an exponent at the offset, if it has digits. -/
def exponentStop (k : Nat) : Nat :=
  if b[k]?.any (isOneOf ['e', 'E']) then
    let first := signStop b (k + 1)
    let last := digitsStop b first
    if first < last then last else k
  else k

/-- Behind the longest numeral at the start. -/
def stop? : Option Nat :=
  let first := signStop b 0
  let last := digitsStop b first
  let (count, k) := fractionStop b (last - first) last
  if count = 0 then none else some (exponentStop b k)

end Stops

/-- The longest numeral after white space, cut from the text and converted. There is no answer if the
cut is out of range or inside a character. -/
def convertLongest? {α : Type*} (convert : Text → Option α) (s : Text) : Option (Option α) :=
  match stop? s.trimStart.utf8 with
  | none => some none
  | some k => (s.trimStart.sliceBytes? 0 k).map convert

/-! ## Where it stops -/

section Offsets

variable {s x r : Text}

/-- The byte behind a part of the text answers as the character there does. -/
theorem any_getElem?_utf8 {f : UInt8 → Bool} {g : Char → Bool} (hsees : Sees f g) (h : x ++ r = s) :
    (utf8 s)[byteLength x]?.any f = r.head?.any g := by
  rw [← h, ← List.head?_drop, drop_utf8_append]
  exact any_head?_utf8 hsees.head r

theorem byteLength_concat {f : UInt8 → Bool} {g : Char → Bool} (hsees : Sees f g) (x : Text)
    {c : Char} (hc : g c = true) : byteLength (x ++ [c]) = byteLength x + 1 := by
  rw [byteLength_append, byteLength_cons, hsees.utf8Size hc, byteLength_nil]

theorem byteLength_append_digits (x r : Text) :
    byteLength (x ++ (digits r).1) = byteLength x + (digits r).1.length := by
  rw [byteLength_append, sees_isDigitByte.byteLength_eq (isDigit_digits r)]

theorem signStop_utf8 (h : x ++ r = s) :
    signStop (utf8 s) (byteLength x) = byteLength (x ++ (sign? r).1.toList) := by
  have hsees : Sees (isOneOf ['+', '-']) ['+', '-'].contains := sees_isOneOf (by decide)
  rw [signStop, any_getElem?_utf8 hsees h]
  cases r with
  | nil => simp [sign?]
  | cons c r =>
    by_cases hc : (c == '+' || c == '-') = true
    · have hmark : ['+', '-'].contains c = true := by simpa using hc
      rw [sign?, if_pos hc, List.head?_cons, Option.any_some, if_pos hmark]
      exact (byteLength_concat hsees x hmark).symm
    · have hmark : ¬ ['+', '-'].contains c = true := by simpa using hc
      rw [sign?, if_neg hc, List.head?_cons, Option.any_some, if_neg hmark]
      simp

theorem digitsStop_utf8 (h : x ++ r = s) :
    digitsStop (utf8 s) (byteLength x) = byteLength (x ++ (digits r).1) := by
  induction r generalizing x with
  | nil =>
    rw [digitsStop, any_getElem?_utf8 sees_isDigitByte h]
    simp [digits]
  | cons c r ih =>
    rw [digitsStop, any_getElem?_utf8 sees_isDigitByte h, List.head?_cons, Option.any_some]
    cases hc : c.isDigit with
    | true =>
      have hdigits : (digits (c :: r)).1 = c :: (digits r).1 := List.takeWhile_cons_of_pos hc
      rw [if_pos rfl, ← byteLength_concat sees_isDigitByte x hc, ih (by simpa using h), hdigits,
        List.append_assoc, List.singleton_append]
    | false =>
      rw [digits_of_head? (by simpa using hc)]
      simp

/-- The digits are counted, and the scanner goes on behind them. -/
theorem fractionStop_utf8 (h : x ++ r = s) {whole : Text} {count : Nat}
    (hcount : count = 0 ↔ whole = []) :
    (fractionStop (utf8 s) count (byteLength x)).2 =
        byteLength (x ++ fractionText (fraction? whole r).1) ∧
      ((fractionStop (utf8 s) count (byteLength x)).1 = 0 ↔
        (whole.isEmpty && (fraction? whole r).1.isNone) = true) := by
  have hpoint : ((utf8 s)[byteLength x]? == some (code '.')) = (r.head? == some '.') := by
    rw [← h, ← List.head?_drop, drop_utf8_append, Token.head?_utf8 (by decide)]
  rw [fractionStop, hpoint]
  by_cases hhead : r.head? = some '.'
  · obtain ⟨t, rfl⟩ := List.head?_eq_some_iff.1 hhead
    have hone : byteLength (x ++ ['.']) = byteLength x + 1 := by rw [byteLength_append]; rfl
    have hlast : digitsStop (utf8 s) (byteLength x + 1) = byteLength x + 1 + (digits t).1.length := by
      rw [← hone, digitsStop_utf8 (by simpa using h), byteLength_append_digits]
    rw [fraction?_point, if_pos (by simp), hlast]
    dsimp only
    by_cases hds : (digits t).1 = []
    · -- a point alone is passed over if digits stand before it
      rw [hds, List.length_nil, Nat.add_zero, if_neg (Nat.lt_irrefl _)]
      by_cases hwhole : whole = []
      · simp [hcount.2 hwhole, hwhole, fractionText]
      · have hpos : 0 < count := Nat.pos_of_ne_zero fun hzero => hwhole (hcount.1 hzero)
        simp [hpos, hwhole, fractionText, hone, Nat.ne_of_gt hpos]
    · have hpos : 0 < (digits t).1.length := List.length_pos_iff.2 hds
      rw [if_pos (by omega), if_neg (by simp [hds])]
      refine ⟨?_, by simp [hds]⟩
      rw [← hone, ← byteLength_append_digits, List.append_assoc]
      rfl
  · rw [fraction?_of_head? hhead, if_neg (by simpa using hhead)]
    simp [fractionText, hcount]

theorem exponentStop_utf8 (h : x ++ r = s) :
    exponentStop (utf8 s) (byteLength x) = byteLength (x ++ exponentText (exponent? r)) := by
  have hsees : Sees (isOneOf ['e', 'E']) ['e', 'E'].contains := sees_isOneOf (by decide)
  rw [exponentStop, any_getElem?_utf8 hsees h]
  cases r with
  | nil => simp [exponent?, exponentText]
  | cons c r =>
    by_cases hc : (c == 'e' || c == 'E') = true
    · have hletter : ['e', 'E'].contains c = true := by simpa using hc
      have hsign : signStop (utf8 s) (byteLength x + 1) =
          byteLength (x ++ [c] ++ (sign? r).1.toList) := by
        rw [← byteLength_concat hsees x hletter]
        exact signStop_utf8 (by simpa using h)
      have hlast : digitsStop (utf8 s) (byteLength (x ++ [c] ++ (sign? r).1.toList)) =
          byteLength (x ++ [c] ++ (sign? r).1.toList ++ (digits (sign? r).2).1) := by
        refine digitsStop_utf8 ?_
        rw [List.append_assoc, ← (eq_of_sign? r).1, List.append_assoc]
        exact h
      rw [exponent?, if_pos hc, List.head?_cons, Option.any_some, if_pos hletter, hsign]
      dsimp only
      rw [hlast, byteLength_append_digits]
      by_cases hds : (digits (sign? r).2).1 = []
      · simp [hds, exponentText]
      · have hpos : 0 < (digits (sign? r).2).1.length := List.length_pos_iff.2 hds
        rw [if_pos (by omega), if_neg (by simp [hds]), ← byteLength_append_digits]
        simp [exponentText]
    · have hletter : ¬ ['e', 'E'].contains c = true := by simpa using hc
      rw [exponent?, if_neg hc, List.head?_cons, Option.any_some, if_neg hletter]
      simp [exponentText]

end Offsets

/-- **The scanner stops behind the numeral that is read.** -/
theorem stop?_utf8 (s : Text) : stop? (utf8 s) = (read? s).map fun n => byteLength n.text := by
  obtain ⟨sign, r, hsign⟩ : ∃ sign r, sign? s = (sign, r) := ⟨_, _, rfl⟩
  obtain ⟨whole, point, hwhole⟩ : ∃ whole point, digits r = (whole, point) := ⟨_, _, rfl⟩
  obtain ⟨fraction, rest, hfraction⟩ : ∃ fraction rest, fraction? whole point = (fraction, rest) :=
    ⟨_, _, rfl⟩
  -- the text, divided behind each part
  have hr : sign.toList ++ r = s := by simpa only [hsign] using (eq_of_sign? s).1.symm
  have hpoint : sign.toList ++ whole ++ point = s := by
    have hdigits : (digits r).1 ++ (digits r).2 = r := List.takeWhile_append_dropWhile
    rw [hwhole] at hdigits
    rw [List.append_assoc, hdigits, hr]
  have hrest : sign.toList ++ whole ++ fractionText fraction ++ rest = s := by
    have hparts := eq_of_fraction? whole point
    rw [hfraction] at hparts
    rw [List.append_assoc, ← hpoint]
    exact congrArg _ hparts.symm
  -- the offsets where the scanner is then
  have hfirst : signStop (utf8 s) 0 = byteLength sign.toList := by
    simpa only [hsign, byteLength_nil, List.nil_append] using signStop_utf8 (List.nil_append s)
  have hlast : digitsStop (utf8 s) (byteLength sign.toList) = byteLength (sign.toList ++ whole) := by
    simpa only [hwhole] using digitsStop_utf8 hr
  have hcount : byteLength (sign.toList ++ whole) - byteLength sign.toList = 0 ↔ whole = [] := by
    have hlength := byteLength_append_digits sign.toList r
    rw [hwhole] at hlength
    rw [hlength, Nat.add_sub_cancel_left, List.length_eq_zero_iff]
  obtain ⟨hstop, hnone⟩ := fractionStop_utf8 hpoint hcount
  rw [hfraction] at hstop hnone
  have hread : read? s = if whole.isEmpty && fraction.isNone then none
      else some ⟨sign, whole, fraction, exponent? rest⟩ := by
    simp only [read?, hsign, hwhole, hfraction]
  rw [hread, stop?, hfirst]
  dsimp only
  rw [hlast, hstop, exponentStop_utf8 hrest, if_congr hnone rfl rfl]
  split
  · rfl
  · rw [Option.map_some, text_eq, ← List.append_assoc sign.toList]

/-! ## What is converted -/

/-- The double that a text denotes, if all of it is a numeral. -/
def toBinary64? (s : Text) : Option Binary64 :=
  (read? s).bind fun n => if n.text = s then some n.value.toBinary64 else none

theorem WellFormed.toBinary64?_text {n : Numeral} (h : n.WellFormed) :
    toBinary64? n.text = some n.value.toBinary64 := by
  rw [toBinary64?, h.read?_text, Option.bind_some, if_pos rfl]

theorem exists_toBinary64? {p : Text} (h : p ∈ grammar.matches') : ∃ x, toBinary64? p = some x := by
  obtain ⟨n, hn, rfl⟩ := mem_grammar_iff.1 h
  exact ⟨_, hn.toBinary64?_text⟩

/-- The answer for a text: none if no numeral stands at its start, and otherwise what the longest of
them is converted to, which the conversion does not refuse. -/
structure Answers {α : Type*} (convert : Text → Option α) (s : Text) (answer : Option α) : Prop where
  none_iff : answer = none ↔ ∀ p, p <+: s → p ∉ grammar.matches'
  exists_longest : answer ≠ none → ∃ p x, IsLongest s p ∧ convert p = some x ∧ answer = some x

theorem answers_read? {α : Type*} {convert : Text → Option α}
    (hconvert : ∀ p ∈ grammar.matches', ∃ x, convert p = some x) (s : Text) :
    Answers convert s ((read? s).bind fun n => convert n.text) := by
  cases hread : read? s with
  | none => exact ⟨iff_of_true rfl (read?_eq_none_iff.1 hread), fun h => absurd rfl h⟩
  | some n =>
    have hlongest := isLongest_of_read? hread
    obtain ⟨x, hx⟩ := hconvert n.text hlongest.mem
    rw [Option.bind_some, hx]
    refine ⟨iff_of_false nofun fun h => h n.text hlongest.isPrefix hlongest.mem, fun _ => ?_⟩
    exact ⟨n.text, x, hlongest, hx, rfl⟩

/-- The cut is at the end of the numeral that is read, so it does not fail. -/
theorem convertLongest?_eq {α : Type*} (convert : Text → Option α) (s : Text) :
    convertLongest? convert s = some ((read? s.trimStart).bind fun n => convert n.text) := by
  rw [convertLongest?, stop?_utf8]
  cases hread : read? s.trimStart with
  | none => rfl
  | some n =>
    obtain ⟨rest, hrest⟩ := (isLongest_of_read? hread).isPrefix
    dsimp only [Option.map_some]
    rw [← hrest, sliceBytes?_left]
    rfl

theorem leadingNumber?_eq (s : Text) :
    leadingNumber? s = (read? s.trimStart).bind fun n => toBinary64? n.text := by
  rw [leadingNumber?]
  cases hread : read? s.trimStart with
  | none => rfl
  | some n =>
    rw [Option.map_some, Option.bind_some, (wellFormed_of_read? hread).1.toBinary64?_text]

/-- **The longest numeral is what is converted**, by every conversion that accepts the grammar, and the
number at the start of a text is so converted. -/
theorem converts_longest {α : Type*} {convert : Text → Option α}
    (hconvert : ∀ p ∈ grammar.matches', ∃ x, convert p = some x) (s : Text) :
    (∃ answer, convertLongest? convert s = some answer ∧ Answers convert s.trimStart answer) ∧
      convertLongest? toBinary64? s = some (leadingNumber? s) ∧
      Answers toBinary64? s.trimStart (leadingNumber? s) := by
  rw [leadingNumber?_eq]
  exact ⟨⟨_, convertLongest?_eq convert s, answers_read? hconvert _⟩, convertLongest?_eq _ s,
    answers_read? (fun _ h => exists_toBinary64? h) _⟩

/-- An exponent without digits is left behind. -/
theorem converts_longest_without_exponent :
    (∃ answer, convertLongest? toBinary64? [' ', '-', '1', '.', '5', 'e', '+', 'x'] = some answer ∧
        Answers toBinary64? ['-', '1', '.', '5', 'e', '+', 'x'] answer) ∧
      IsLongest ['-', '1', '.', '5', 'e', '+', 'x'] ['-', '1', '.', '5'] := by
  refine ⟨?_, isLongest_of_read? (n := ⟨some '-', ['1'], some ['5'], none⟩) rfl⟩
  exact (converts_longest (fun _ h => exists_toBinary64? h)
    [' ', '-', '1', '.', '5', 'e', '+', 'x']).1

end LessStyle.Numeral
