import LessStyle.Proofs.Sheet.Origin
import LessStyle.Proofs.Value.Blanked
import LessStyle.Proofs.Value.ItemSearch
import LessStyle.Proofs.Value.Items

/-!
# Literals and items

A mask looks for literals at every character, a scan only where an item begins. `Item.Row` follows both
along a value: a blank, a literal that is an item for the scan and blanked out by the mask, or another
item. Inside an item of the last sort the mask may find a literal that the scan passes over
(`Item.Hides`), and there only the two differ: they agree on a value exactly if no item hides a literal
(`Item.agrees_iff`). Such an item ends in `url` before a parenthesis, or is a variable with a quote or a
`url(` in its braces (`Item.Conceals`).
-/

namespace LessStyle

open Text

/-! ## Texts with a literal in them -/

theorem isAlpha_iff (c : Char) :
    c.isAlpha = true ↔ 65 ≤ c.toNat ∧ c.toNat ≤ 90 ∨ 97 ≤ c.toNat ∧ c.toNat ≤ 122 := by
  change (decide (65 ≤ c.toNat ∧ c.toNat ≤ 90) ||
    (decide (97 ≤ c.toNat) && decide (c.toNat ≤ 122))) = true ↔ _
  simp only [Bool.or_eq_true, Bool.and_eq_true, decide_eq_true_eq]

theorem isDigit_of_isAlpha {c : Char} (h : c.isAlpha = true) : c.isDigit = false := by
  have hc := (isAlpha_iff c).1 h
  rw [← Bool.not_eq_true]
  intro hdigit
  have hd : 48 ≤ c.toNat ∧ c.toNat ≤ 57 := by
    simpa [Char.isDigit, UInt32.le_iff_toNat_le] using hdigit
  omega

/-- Only letters have another lower case, and it is a letter. -/
theorem toLower_cases (c : Char) : c.toLower = c ∨ c.isAlpha = true ∧ c.toLower.isAlpha = true := by
  unfold Char.toLower
  split
  · next hc =>
    have hlow : 65 ≤ c.toNat := hc.1
    have hhigh : c.toNat ≤ 90 := hc.2
    have hval : (c.val + 32).toNat = c.toNat + 32 := by
      rw [UInt32.toNat_add]
      apply Nat.mod_eq_of_lt
      show c.toNat + 32 < 2 ^ 32
      omega
    refine .inr ⟨(isAlpha_iff c).2 (.inl ⟨hlow, hhigh⟩), (isAlpha_iff _).2 (.inr ?_)⟩
    show 97 ≤ (c.val + 32).toNat ∧ (c.val + 32).toNat ≤ 122
    omega
  · exact .inl rfl

theorem isAlpha_of_toLower {c d : Char} (h : c.toLower = d) (hd : d.isAlpha = true) :
    c.isAlpha = true := by
  rcases toLower_cases c with hc | ⟨hc, -⟩
  · rwa [← hc, h]
  · exact hc

theorem eq_of_toLower {c d : Char} (h : c.toLower = d) (hd : d.isAlpha = false) : c = d := by
  rcases toLower_cases c with hc | ⟨-, hc⟩
  · rw [← hc, h]
  · rw [h, hd] at hc
    cases hc

/-- What begins with `url(`, letter by letter. -/
theorem exists_of_startsUrl {s : Text} (h : startsUrl s = true) :
    ∃ a b c rest, s = a :: b :: c :: '(' :: rest ∧
      a.isAlpha = true ∧ b.isAlpha = true ∧ c.isAlpha = true ∧
      sameIgnoringCase [a, b, c] ['u', 'r', 'l'] = true := by
  rw [startsUrl, sameIgnoringCase, beq_iff_eq] at h
  rcases s with _ | ⟨a, _ | ⟨b, _ | ⟨c, _ | ⟨d, rest⟩⟩⟩⟩
  iterate 4 simp at h
  have hurl : a.toLower = 'u' ∧ b.toLower = 'r' ∧ c.toLower = 'l' ∧ d.toLower = '(' := by
    simpa using h
  obtain ⟨ha, hb, hc, hd⟩ := hurl
  obtain rfl := eq_of_toLower hd (by decide)
  refine ⟨a, b, c, rest, rfl, isAlpha_of_toLower ha (by decide), isAlpha_of_toLower hb (by decide),
    isAlpha_of_toLower hc (by decide), ?_⟩
  simp [sameIgnoringCase, ha, hb, hc]

theorem startsUrl_append_left {s : Text} (rest : Text) (h : startsUrl s = true) :
    startsUrl (s ++ rest) = true := by
  obtain ⟨a, b, c, tail, rfl, -⟩ := exists_of_startsUrl h
  exact h

/-- The word `url` before a parenthesis. -/
theorem startsUrl_append_right {word rest : Text} (h : sameIgnoringCase word ['u', 'r', 'l'] = true)
    (hrest : rest.head? = some '(') : startsUrl (word ++ rest) = true := by
  obtain ⟨tail, rfl⟩ := List.head?_eq_some_iff.1 hrest
  rw [sameIgnoringCase, beq_iff_eq] at h
  have hlen : word.length = 3 := by simpa using congrArg List.length h
  rw [startsUrl, show 4 = word.length + 1 by omega, List.take_length_add_append, sameIgnoringCase,
    List.map_append, h]
  rfl

/-- Two words meet here: letters on both sides. -/
def Joined (text rest : Text) : Prop :=
  ∃ a ∈ text.getLast?, ∃ b ∈ rest.head?, a.isAlpha = true ∧ b.isAlpha = true

theorem Joined.append_left {text rest : Text} (h : Joined text rest) (front : Text) :
    Joined (front ++ text) rest := by
  obtain ⟨a, ha, hrest⟩ := h
  refine ⟨a, ?_, hrest⟩
  rw [List.getLast?_append, Option.mem_def.1 ha]
  rfl

theorem literalWidth?_isSome_iff {c : Char} {s : Text} :
    (literalWidth? c s).isSome = true ↔ isQuote c = true ∨ startsUrl (c :: s) = true := by
  rw [literalWidth?]
  cases isQuote c <;> cases startsUrl (c :: s) <;> simp

/-- A `url(` that begins in a text is in it as a whole, or its parenthesis is the first character
behind the text, or the text ends inside of the word. -/
theorem startsUrl_append_cases {c : Char} {s rest : Text} (h : startsUrl (c :: s ++ rest) = true) :
    startsUrl (c :: s) = true ∨
      sameIgnoringCase (c :: s) ['u', 'r', 'l'] = true ∧ rest.head? = some '(' ∨
      Joined (c :: s) rest := by
  obtain ⟨a, b, d, tail, hs, ha, hb, hd, hurl⟩ := exists_of_startsUrl h
  rcases s with _ | ⟨e, _ | ⟨f, _ | ⟨g, s⟩⟩⟩
  all_goals simp only [List.cons_append, List.nil_append, List.cons.injEq] at hs
  · -- only the `u` is in the text
    obtain ⟨rfl, rfl⟩ := hs
    exact .inr (.inr ⟨c, rfl, b, rfl, ha, hb⟩)
  · obtain ⟨-, rfl, rfl⟩ := hs
    exact .inr (.inr ⟨e, rfl, d, rfl, hb, hd⟩)
  · obtain ⟨rfl, rfl, rfl, rfl⟩ := hs
    exact .inr (.inl ⟨hurl, rfl⟩)
  · exact .inl h

namespace Item

/-! ## Items that are no literals -/

/-- A string or a `url(` with its argument. -/
def isLiteral (i : Item) : Bool := i.kind = .string || i.kind = .url

/-- The quotes, and the parenthesis of `url(`. -/
def openers : List Char := ['"', '\'', '(']

/-- A word, a number, a variable or a mark, with the text behind it: it begins no literal, it ends where
a word may begin, and only a variable has quotes or parentheses behind its first character. -/
structure IsPlain (i : Item) (rest : Text) : Prop where
  other : i.isLiteral = false
  begins : ∃ c s, i.text = c :: s ∧ literalWidth? c (s ++ rest) = none ∧
    (i.kind ≠ .variable → ∀ d ∈ s, d ∉ openers)
  ends : ¬ Joined i.text rest

/-- Where a word ends stands no letter. -/
theorem not_joined_of_head? {text rest : Text} (h : ∀ c ∈ rest.head?, c.isAlpha = false) :
    ¬ Joined text rest := by
  rintro ⟨a, -, b, hb, -, halpha⟩
  rw [h b hb] at halpha
  cases halpha

theorem not_joined_of_getLast? {text rest : Text} (h : ∀ c ∈ text.getLast?, c.isAlpha = false) :
    ¬ Joined text rest := by
  rintro ⟨a, ha, b, -, halpha, -⟩
  rw [h a ha] at halpha
  cases halpha

theorem isAlpha_of_endsWord {c : Char} (h : endsWord c = true) : c.isAlpha = false := by
  have hends : [' ', '\n', '\t', '\r', '\x0c', '(', ')', ',', '"', '\'', '+', '*', '/', '@'].all
      (!·.isAlpha) = true := by decide
  simpa using List.all_eq_true.1 hends c (by simpa [endsWord, isBlank, or_assoc] using h)

theorem mem_openers_of_isQuote {c : Char} (h : isQuote c = true) : c ∈ openers := by
  have hc : c = '"' ∨ c = '\'' := by simpa [isQuote] using h
  rcases hc with rfl | rfl
  · decide
  · decide

theorem notMem_openers {p : Char → Bool} (hp : openers.all (!p ·) = true) {c : Char}
    (hc : p c = true) : c ∉ openers := by
  intro h
  have hopens := List.all_eq_true.1 hp c h
  rw [hc] at hopens
  cases hopens

theorem plain_take_wordWidth (s : Text) : ∀ c ∈ s.take (wordWidth s), c ∉ openers := by
  rw [wordWidth, take_length_takeWhile]
  intro c hc
  have hword := List.mem_takeWhile_imp hc
  exact notMem_openers (p := (!endsWord ·)) (by decide) hword

theorem isAlpha_of_mem_head?_wordWidth {s : Text} {c : Char} (hc : c ∈ (s.drop (wordWidth s)).head?) :
    c.isAlpha = false := by
  rw [wordWidth, drop_length_takeWhile] at hc
  have hends := List.head?_dropWhile_not (!endsWord ·) s
  rw [Option.mem_def.1 hc] at hends
  exact isAlpha_of_endsWord (by simpa using hends)

theorem isAlpha_of_mem_head?_nameWidth {s : Text} {c : Char} (hc : c ∈ (s.drop (nameWidth s)).head?) :
    c.isAlpha = false := by
  induction s with
  | nil => simp [nameWidth] at hc
  | cons d s ih =>
    rw [nameWidth_cons] at hc
    split at hc
    · next hdash =>
      split at hc
      · exact ih hc
      · obtain rfl : d = c := Option.some.inj hc
        rw [beq_iff_eq.1 hdash]
        rfl
    split at hc
    · exact ih hc
    · next hname =>
      obtain rfl : d = c := Option.some.inj hc
      simp only [isNameChar, Char.isAlphanum, Bool.or_eq_true, not_or] at hname
      exact Bool.eq_false_iff.2 hname.1.1.1.1

/-- A name ends before a character that is no letter, and braces with one. -/
theorem not_joined_referenceWidth (lead s : Text) :
    ¬ Joined (lead ++ s.take (referenceWidth s)) (s.drop (referenceWidth s)) := by
  unfold referenceWidth
  split
  · next s =>
    cases hthrough : through? '}' s with
    | none =>
      apply not_joined_of_head?
      simp
    | some n =>
      obtain ⟨k, hk, rfl⟩ := Option.map_eq_some_iff.1 hthrough
      obtain ⟨hlt, hbrace, -⟩ := List.findIdx?_eq_some_iff_getElem.1 hk
      have htake : s.take (k + 1) = s.take k ++ ['}'] := by
        rw [List.take_succ_eq_append_getElem hlt, beq_iff_eq.1 hbrace]
      apply not_joined_of_getLast?
      rw [Option.getD_some, List.take_succ_cons, htake, ← List.cons_append, ← List.append_assoc,
        List.getLast?_concat]
      simp
  · exact not_joined_of_head? fun c hc => isAlpha_of_mem_head?_nameWidth hc

theorem not_joined_unitWidth (lead s : Text) :
    ¬ Joined (lead ++ s.take (unitWidth s)) (s.drop (unitWidth s)) := by
  rw [unitWidth_eq]
  split
  · next hhead =>
    obtain ⟨t, rfl⟩ := List.head?_eq_some_iff.1 (beq_iff_eq.1 hhead)
    apply not_joined_of_getLast?
    simp
  · apply not_joined_of_head?
    intro c hc
    rw [drop_length_takeWhile] at hc
    have hends := List.head?_dropWhile_not Char.isAlpha s
    rw [Option.mem_def.1 hc] at hends
    simpa using hends

theorem plain_of_isNumeral {s : Text} (h : IsNumeral s) : ∀ c ∈ s, c ∉ openers := by
  have hdigit : ∀ {c : Char}, c.isDigit = true → c ∉ openers := notMem_openers (by decide)
  obtain ⟨whole, hwhole, ⟨rfl, -⟩ | ⟨fraction, -, hfraction, rfl⟩⟩ := h
  · exact fun c hc => hdigit (hwhole c hc)
  · intro c hc
    rcases List.mem_append.1 hc with hc | hc
    · exact hdigit (hwhole c hc)
    rcases List.mem_cons.1 hc with rfl | hc
    · decide
    · exact hdigit (hfraction c hc)

theorem plain_of_isUnit {s : Text} (h : IsUnit s) : ∀ c ∈ s, c ∉ openers := by
  rcases h with rfl | rfl | h
  · simp
  · simp [openers]
  · exact fun c hc => notMem_openers (by decide) (h c hc)

section First

variable {c : Char} {s : Text}

theorem isPlain_first_of {offset : Nat} {kind : Kind} {n unit : Nat}
    (hlex : lexeme c s = (kind, n, unit)) (hwidth : literalWidth? c s = none)
    (hkind : kind ≠ .string ∧ kind ≠ .url)
    (hplain : kind ≠ .variable → ∀ d ∈ s.take n, d ∉ openers)
    (hends : ¬ Joined (c :: s.take n) (s.drop n)) :
    (first offset c s).IsPlain (s.drop (lexeme c s).2.1) := by
  unfold first
  rw [hlex]
  refine ⟨by simp [isLiteral, hkind], ⟨c, s.take n, rfl, ?_, hplain⟩, hends⟩
  rwa [List.take_append_drop]

/-- A mark is an item of its own. -/
theorem isPlain_first_mark {offset : Nat} {kind : Kind} (hlex : lexeme c s = (kind, 0, 0))
    (hwidth : literalWidth? c s = none) (hkind : kind ≠ .string ∧ kind ≠ .url)
    (hc : c.isAlpha = false) : (first offset c s).IsPlain (s.drop (lexeme c s).2.1) := by
  apply isPlain_first_of hlex hwidth hkind
  · simp
  · apply not_joined_of_getLast?
    simpa using hc

theorem isPlain_first_word {offset : Nat} (hlex : lexeme c s = (.word, wordWidth s, 0))
    (hwidth : literalWidth? c s = none) : (first offset c s).IsPlain (s.drop (lexeme c s).2.1) :=
  isPlain_first_of hlex hwidth (by decide) (fun _ => plain_take_wordWidth s)
    (not_joined_of_head? fun _ => isAlpha_of_mem_head?_wordWidth)

theorem isPlain_first_number {offset : Nat} (h : startsNumber c s = true)
    (hlex : lexeme c s =
      (.number, digitsWidth (c :: s) + unitWidth ((c :: s).drop (digitsWidth (c :: s))) - 1,
        unitWidth ((c :: s).drop (digitsWidth (c :: s)))))
    (hwidth : literalWidth? c s = none) :
    (first offset c s).IsPlain (s.drop (lexeme c s).2.1) := by
  have hnumeral := isNumeral_take_digitsWidth h
  have hunit := isUnit_take_unitWidth ((c :: s).drop (digitsWidth (c :: s)))
  obtain ⟨htext, -⟩ := number_text h rfl rfl
  have hends := not_joined_unitWidth ((c :: s).take (digitsWidth (c :: s)))
    ((c :: s).drop (digitsWidth (c :: s)))
  generalize digitsWidth (c :: s) = digits at *
  generalize unitWidth ((c :: s).drop digits) = unit at *
  apply isPlain_first_of hlex hwidth (by decide)
  · intro _ d hd
    have hmem : d ∈ (c :: s).take digits ++ ((c :: s).drop digits).take unit :=
      htext ▸ List.mem_cons_of_mem c hd
    rcases List.mem_append.1 hmem with hd | hd
    · exact plain_of_isNumeral hnumeral d hd
    · exact plain_of_isUnit hunit d hd
  · have hdrop : s.drop (digits + unit - 1) = ((c :: s).drop digits).drop unit := by
      apply (List.append_right_inj (c :: s.take (digits + unit - 1))).1
      rw [List.cons_append, List.take_append_drop, htext, List.append_assoc, List.take_append_drop,
        List.take_append_drop]
    rwa [htext, hdrop]

theorem isPlain_first_variable {offset : Nat} (s : Text) :
    (first offset '@' s).IsPlain (s.drop (lexeme '@' s).2.1) := by
  have hlex : lexeme '@' s = (.variable, variableWidth s, 0) := rfl
  apply isPlain_first_of hlex (literalWidth?_of_ne (by decide) (by decide) s) (by decide)
  · exact fun h => absurd rfl h
  · unfold variableWidth
    split
    · next s => exact not_joined_referenceWidth ['@', '@'] s
    · exact not_joined_referenceWidth ['@'] s

/-- What begins no literal for the mask is none for the scan. -/
theorem isPlain_first (offset : Nat) (h : literalWidth? c s = none) :
    (first offset c s).IsPlain (s.drop (lexeme c s).2.1) := by
  by_cases hc : c ∈ marks
  · simp only [marks, List.mem_cons, List.not_mem_nil, or_false] at hc
    rcases hc with rfl | rfl | rfl | rfl | rfl | rfl | rfl | rfl | rfl | rfl
    · cases h
    · cases h
    iterate 6 exact isPlain_first_mark rfl h (by decide) (by decide)
    · cases hdash : startsDashWord s with
      | true => exact isPlain_first_word (by rw [lexeme_dash, hdash, if_pos rfl]) h
      | false =>
        exact isPlain_first_mark (by rw [lexeme_dash, hdash, if_neg Bool.false_ne_true]) h
          (by decide) (by decide)
    · exact isPlain_first_variable s
  · have hurl := (literalWidth?_eq_none_iff.1 h).2
    have hlex := lexeme_of_notMem_marks s hc
    rw [hurl, if_neg Bool.false_ne_true] at hlex
    cases hstart : startsNumber c s with
    | true => exact isPlain_first_number hstart (by rw [hlex, hstart, if_pos rfl]) h
    | false =>
      exact isPlain_first_word (by rw [hlex, hstart, if_neg Bool.false_ne_true]) h

/-- What begins a literal for the mask begins the same literal for the scan. -/
theorem lexeme_of_literalWidth? {n : Nat} (h : literalWidth? c s = some n) :
    ∃ kind, (kind = .string ∨ kind = .url) ∧ lexeme c s = (kind, n, 0) := by
  rw [literalWidth?] at h
  split at h
  · next hquote =>
    obtain rfl := Option.some.inj h
    exact ⟨.string, .inl rfl, by rw [lexeme, if_pos hquote]⟩
  split at h
  · next hurl =>
    obtain rfl := Option.some.inj h
    obtain ⟨a, b, d, rest, hs, ha, -⟩ := exists_of_startsUrl hurl
    obtain ⟨rfl, -⟩ := List.cons.inj hs
    have hmarks : c ∉ marks := by
      intro hc
      have hletters : marks.all (!·.isAlpha) = true := by decide
      have hmark := List.all_eq_true.1 hletters c hc
      rw [ha] at hmark
      cases hmark
    have hstart : startsNumber c s = false := by
      rw [startsNumber, isDigit_of_isAlpha ha, Bool.false_or, Bool.and_eq_false_iff]
      refine .inl (beq_eq_false_iff_ne.2 ?_)
      rintro rfl
      cases ha
    refine ⟨.url, .inr rfl, ?_⟩
    rw [lexeme_of_notMem_marks s hmarks, hstart, hurl, if_neg Bool.false_ne_true, if_pos rfl]
  · cases h

end First

/-! ## Rows of literals and other items -/

/-- A literal, as long as it is for the mask, with the text behind it. -/
structure IsWhole (i : Item) (rest : Text) : Prop where
  literal : i.isLiteral = true
  width : ∃ c s n, literalWidth? c s = some n ∧ i.text = c :: s.take n ∧ rest = s.drop n

/-- A text that begins at `offset` is a row of blanks and of these items, literals and others. -/
inductive Row : Nat → Text → List Item → Prop where
  | nil (offset : Nat) : Row offset [] []
  | blank {offset : Nat} {c : Char} {s : Text} {is : List Item} (hblank : isBlank c = true)
      (tail : Row (offset + 1) s is) : Row offset (c :: s) is
  | item {i : Item} {s : Text} {is : List Item} (sort : i.IsWhole s ∨ i.IsPlain s)
      (tail : Row i.stop s is) : Row i.offset (i.text ++ s) (i :: is)

/-- What begins with a character is a literal for both, or for neither. -/
theorem isWhole_or_isPlain_first (offset : Nat) (c : Char) (s : Text) :
    (first offset c s).IsWhole (s.drop (lexeme c s).2.1) ∨
      (first offset c s).IsPlain (s.drop (lexeme c s).2.1) := by
  cases hwidth : literalWidth? c s with
  | none => exact .inr (isPlain_first offset hwidth)
  | some n =>
    obtain ⟨kind, hkind, hlex⟩ := lexeme_of_literalWidth? hwidth
    rw [first, hlex]
    exact .inl ⟨by simpa [isLiteral] using hkind, c, s, n, hwidth, rfl, rfl⟩

/-- **Scanning gives such a row.** -/
theorem row_scanFrom (offset : Nat) (s : Text) : Row offset s (scanFrom offset s) := by
  induction offset, s using scanFrom_induct with
  | nil offset => exact .nil offset
  | blank hblank tail => exact .blank hblank tail
  | @item offset c s is tail =>
    have hitem := Row.item (isWhole_or_isPlain_first offset c s) tail
    rwa [text_first_append] at hitem

/-- A literal begins, for the mask, inside of the item of a text that begins at `offset`. -/
def Hides (offset : Nat) (s : Text) (i : Item) : Prop :=
  ∃ k, i.offset ≤ k ∧ k < i.stop ∧ BeginsAt literalWidth? offset s k

/-- The item as a part of the text. -/
def part (i : Item) : Part := ⟨i.offset, i.text⟩

/-- Behind a text, items hide what they hide in the text behind. -/
theorem hides_append {offset : Nat} {lead s : Text} {i : Item}
    (h : offset + byteLength lead ≤ i.offset) :
    i.Hides offset (lead ++ s) ↔ i.Hides (offset + byteLength lead) s := by
  constructor
  · rintro ⟨k, hle, hlt, hbegins⟩
    exact ⟨k, hle, hlt, (beginsAt_append (Nat.le_trans h hle)).1 hbegins⟩
  · rintro ⟨k, hle, hlt, hbegins⟩
    exact ⟨k, hle, hlt, (beginsAt_append (Nat.le_trans h hle)).2 hbegins⟩

/-- The mask goes over a literal in one step. -/
theorem IsWhole.findAll_eq {i : Item} {rest : Text} (h : i.IsWhole rest) :
    findAll literalWidth? i.offset (i.text ++ rest) =
      i.part :: findAll literalWidth? i.stop rest := by
  obtain ⟨c, s, n, hwidth, htext, rfl⟩ := h.width
  have hsplit : i.text ++ s.drop n = c :: s := by
    rw [htext, List.cons_append, List.take_append_drop]
  rw [hsplit, findAll_of_some hwidth, ← htext]
  rfl

/-- It passes over another item if this hides no literal. -/
theorem findAll_of_not_hides {i : Item} {rest : Text} (h : ¬ i.Hides i.offset (i.text ++ rest)) :
    findAll literalWidth? i.offset (i.text ++ rest) = findAll literalWidth? i.stop rest := by
  apply findAll_append_of_not_beginsAt
  intro k hk hbegins
  have hle : i.offset ≤ k := by
    obtain ⟨front, -, -, -, rfl, -⟩ := hbegins
    exact Nat.le_add_right _ _
  exact h ⟨k, hle, hk, hbegins⟩

namespace Row

variable {offset : Nat} {s : Text} {is : List Item}

/-- Where an item stands, and of which sort it is there. -/
theorem standsIn (h : Row offset s is) : ∀ i ∈ is, ∃ front rest,
    s = front ++ (i.text ++ rest) ∧ i.offset = offset + byteLength front ∧
      (i.IsWhole rest ∨ i.IsPlain rest) := by
  induction h with
  | nil => exact fun i hi => absurd hi List.not_mem_nil
  | @blank offset c s is hblank _ ih =>
    intro i hi
    obtain ⟨front, rest, rfl, hoffset, hsort⟩ := ih i hi
    refine ⟨c :: front, rest, rfl, ?_, hsort⟩
    rw [hoffset, byteLength_cons, Token.sees_isSpaceByte.utf8Size hblank, Nat.add_assoc]
  | @item j s is sort _ ih =>
    intro i hi
    rcases List.mem_cons.1 hi with rfl | hi
    · exact ⟨[], s, rfl, rfl, sort⟩
    · obtain ⟨front, rest, rfl, hoffset, hsort⟩ := ih i hi
      refine ⟨j.text ++ front, rest, (List.append_assoc _ _ _).symm, ?_, hsort⟩
      rw [hoffset, stop, byteLength_append, Nat.add_assoc]

theorem le_offset (h : Row offset s is) {i : Item} (hi : i ∈ is) : offset ≤ i.offset := by
  obtain ⟨front, rest, -, hoffset, -⟩ := h.standsIn i hi
  omega

/-- A blank takes one byte, and no literal begins with it. -/
theorem findAll_blank {c : Char} (hblank : isBlank c = true) :
    findAll literalWidth? offset (c :: s) = findAll literalWidth? (offset + 1) s := by
  rw [findAll_of_none (literalWidth?_of_isWhite (isWhite_of_isBlank hblank) s),
    Token.sees_isSpaceByte.utf8Size hblank]

theorem hides_blank {c : Char} {i : Item} (hblank : isBlank c = true) (h : offset + 1 ≤ i.offset) :
    i.Hides offset (c :: s) ↔ i.Hides (offset + 1) s := by
  have hsize : byteLength [c] = 1 := by
    rw [byteLength_cons, Token.sees_isSpaceByte.utf8Size hblank]
    rfl
  rw [← hsize] at h ⊢
  exact hides_append h

/-- Where no item hides a literal, the mask finds the literals of the scan. -/
theorem findAll_eq (h : Row offset s is)
    (hclear : ∀ i ∈ is, i.isLiteral = false → ¬ i.Hides offset s) :
    findAll literalWidth? offset s = (is.filter isLiteral).map part := by
  induction h with
  | nil =>
    rw [findAll]
    rfl
  | @blank offset c s is hblank tail ih =>
    rw [findAll_blank hblank]
    exact ih fun i hi hother hhides =>
      hclear i hi hother ((hides_blank hblank (tail.le_offset hi)).2 hhides)
  | @item i s is sort tail ih =>
    obtain ⟨hfirst, hothers⟩ := List.forall_mem_cons.1 hclear
    have htail := ih fun j hj hother hhides =>
      hothers j hj hother ((hides_append (tail.le_offset hj)).2 hhides)
    rcases sort with hwhole | hplain
    · rw [hwhole.findAll_eq, htail, List.filter_cons_of_pos hwhole.literal, List.map_cons]
    · rw [findAll_of_not_hides (hfirst hplain.other), htail,
        List.filter_cons_of_neg (by simp [hplain.other])]

/-- What an item hides, the mask finds, at a place that belongs to no literal of the scan. -/
theorem exists_of_hides (h : Row offset s is) {i : Item} (hi : i ∈ is) (hother : i.isLiteral = false)
    (hhides : i.Hides offset s) :
    ∃ p ∈ findAll literalWidth? offset s,
      ∀ j ∈ is, j.isLiteral = true → j.offset ≤ p.offset → j.stop ≤ p.offset := by
  induction h with
  | nil => exact absurd hi List.not_mem_nil
  | @blank offset c s is hblank tail ih =>
    rw [findAll_blank hblank]
    exact ih hi ((hides_blank hblank (tail.le_offset hi)).1 hhides)
  | @item j s is sort tail ih =>
    by_cases hfirst : j.isLiteral = false ∧ j.Hides j.offset (j.text ++ s)
    · obtain ⟨hplain, k, -, hlt, hbegins⟩ := hfirst
      obtain ⟨p, hp, hstop⟩ := exists_mem_findAll_of_beginsAt hbegins hlt
      refine ⟨p, hp, List.forall_mem_cons.2 ⟨fun hliteral => ?_, fun m hm _ hle => ?_⟩⟩
      · rw [hplain] at hliteral
        cases hliteral
      · exact absurd (Nat.le_trans (tail.le_offset hm) hle) (Nat.not_le.2 hstop)
    · have hmem : i ∈ is := by
        refine (List.mem_cons.1 hi).resolve_left ?_
        rintro rfl
        exact hfirst ⟨hother, hhides⟩
      obtain ⟨p, hp, hclear⟩ := ih hmem ((hides_append (tail.le_offset hmem)).1 hhides)
      rcases sort with hwhole | hplain
      · rw [hwhole.findAll_eq]
        exact ⟨p, List.mem_cons_of_mem _ hp,
          List.forall_mem_cons.2 ⟨fun _ _ => le_offset_of_mem_findAll hp, hclear⟩⟩
      · rw [findAll_of_not_hides fun h => hfirst ⟨hplain.other, h⟩]
        refine ⟨p, hp, List.forall_mem_cons.2 ⟨fun hliteral => ?_, hclear⟩⟩
        rw [hplain.other] at hliteral
        cases hliteral

end Row

/-! ## Where the mask and the scan agree -/

/-- The mask of a value blanks out what the scan takes for literals. -/
def Agrees (v : Text) : Prop :=
  ∀ k, Part.Covers (literals v) k ↔ ∃ i ∈ scan v, i.isLiteral = true ∧ i.offset ≤ k ∧ k < i.stop

theorem covers_map_part {is : List Item} {k : Nat} :
    Part.Covers ((is.filter isLiteral).map part) k ↔
      ∃ i ∈ is, i.isLiteral = true ∧ i.offset ≤ k ∧ k < i.stop := by
  constructor
  · rintro ⟨p, hp, hholds⟩
    obtain ⟨i, hi, rfl⟩ := List.mem_map.1 hp
    obtain ⟨hi, hliteral⟩ := List.mem_filter.1 hi
    exact ⟨i, hi, hliteral, hholds⟩
  · rintro ⟨i, hi, hliteral, hholds⟩
    exact ⟨i.part, List.mem_map_of_mem (List.mem_filter.2 ⟨hi, hliteral⟩), hholds⟩

/-- They agree exactly if no item hides a literal. -/
theorem agrees_iff (v : Text) : Agrees v ↔ ∀ i ∈ scan v, i.isLiteral = false → ¬ i.Hides 0 v := by
  have hrow : Row 0 v (scan v) := row_scanFrom 0 v
  constructor
  · intro h i hi hother hhides
    obtain ⟨p, hp, hclear⟩ := hrow.exists_of_hides hi hother hhides
    have hcovers : Part.Covers (literals v) p.offset :=
      ⟨p, hp, Nat.le_refl _, offset_lt_stop_of_mem_findAll hp⟩
    obtain ⟨j, hj, hliteral, hle, hlt⟩ := (h p.offset).1 hcovers
    exact absurd (hclear j hj hliteral hle) (Nat.not_le.2 hlt)
  · intro h k
    rw [literals, hrow.findAll_eq h]
    exact covers_map_part

/-- The item ends in `url`, in upper or lower case, before a parenthesis, or it is a variable that has
in its braces a quote or `url(`. -/
def Conceals (i : Item) (rest : Text) : Prop :=
  (∃ front word, i.text = front ++ word ∧ sameIgnoringCase word ['u', 'r', 'l'] = true ∧
    rest.head? = some '(') ∨
  i.kind = .variable ∧ ∃ front c s, i.text = front ++ c :: s ∧
    (isQuote c = true ∨ startsUrl (c :: s) = true)

/-- A literal that begins behind the first character of an item, or would begin there without the text
behind the item, is in a variable. -/
theorem IsPlain.kind_eq {i : Item} {rest front s : Text} {c : Char} (h : i.IsPlain rest)
    (htext : i.text = front ++ c :: s) (hc : isQuote c = true ∨ startsUrl (c :: s) = true) :
    i.kind = .variable := by
  by_contra hkind
  obtain ⟨d, t, hdt, hwidth, hplain⟩ := h.begins
  obtain ⟨hquote, hurl⟩ := literalWidth?_eq_none_iff.1 hwidth
  have htail : front ++ c :: s = d :: t := by rw [← htext, hdt]
  -- neither the quote nor the parenthesis of `url(` is the first character
  obtain ⟨e, he, hopens⟩ : ∃ e ∈ t, e ∈ openers := by
    cases front with
    | nil =>
      obtain ⟨rfl, rfl⟩ := List.cons.inj htail
      rcases hc with hc | hc
      · rw [hquote] at hc
        cases hc
      · rw [← List.cons_append, startsUrl_append_left rest hc] at hurl
        cases hurl
    | cons e front =>
      obtain ⟨rfl, rfl⟩ := List.cons.inj htail
      rcases hc with hc | hc
      · exact ⟨c, by simp, mem_openers_of_isQuote hc⟩
      · obtain ⟨a, b, d, more, hs, -⟩ := exists_of_startsUrl hc
        exact ⟨'(', by simp [hs], by decide⟩
  exact hplain hkind e he hopens

theorem hides_of {i : Item} {rest front s : Text} {c : Char} (htext : i.text = front ++ c :: s)
    (hc : (literalWidth? c (s ++ rest)).isSome = true) : i.Hides i.offset (i.text ++ rest) := by
  refine ⟨i.offset + byteLength front, Nat.le_add_right _ _, ?_, front, c, s ++ rest, ?_, rfl, hc⟩
  · have hsize := c.utf8Size_pos
    rw [stop, htext, byteLength_append, byteLength_cons]
    omega
  · rw [htext, List.append_assoc, List.cons_append]

/-- What hides a literal, by its own text. -/
theorem IsPlain.hides_iff {i : Item} {rest : Text} (h : i.IsPlain rest) :
    i.Hides i.offset (i.text ++ rest) ↔ i.Conceals rest := by
  constructor
  · rintro ⟨k, -, hlt, front, c, back, hs, rfl, hc⟩
    rcases append_eq_append_cons_cases hs with ⟨s, htext, rfl⟩ | ⟨more, rfl, -⟩
    · rw [literalWidth?_isSome_iff] at hc
      rcases hc with hquote | hurl
      · exact .inr ⟨h.kind_eq htext (.inl hquote), front, c, s, htext, .inl hquote⟩
      rcases startsUrl_append_cases hurl with hurl | ⟨hword, hrest⟩ | hjoined
      · exact .inr ⟨h.kind_eq htext (.inr hurl), front, c, s, htext, .inr hurl⟩
      · exact .inl ⟨front, c :: s, htext, hword, hrest⟩
      · exact absurd (htext ▸ hjoined.append_left front) h.ends
    · rw [stop, byteLength_append] at hlt
      omega
  · rintro (⟨front, word, htext, hword, hrest⟩ | ⟨-, front, c, s, htext, hc⟩)
    · have hurl := startsUrl_append_right hword hrest
      cases word with
      | nil => cases hword
      | cons c s => exact hides_of htext (literalWidth?_isSome_iff.2 (.inr hurl))
    · exact hides_of htext (literalWidth?_isSome_iff.2 (hc.imp_right (startsUrl_append_left rest)))

theorem exists_hides_iff_conceals {v : Text} {i : Item} (hi : i ∈ scan v)
    (hother : i.isLiteral = false) :
    ∃ front rest, v = front ++ (i.text ++ rest) ∧ byteLength front = i.offset ∧
      (i.Hides 0 v ↔ i.Conceals rest) := by
  obtain ⟨front, rest, hv, hoffset, hsort⟩ := (row_scanFrom 0 v).standsIn i hi
  have hplain : i.IsPlain rest := by
    refine hsort.resolve_left fun hwhole => ?_
    rw [hwhole.literal] at hother
    cases hother
  refine ⟨front, rest, hv, by omega, ?_⟩
  rw [← hplain.hides_iff, hv, hides_append (Nat.le_of_eq hoffset.symm), ← hoffset]

/-- **The mask and the scan agree on the literals of a value exactly if no item hides one.** A byte of
a value is blanked out if it is in one of its `literals`, and stays else. These are the strings and the
`url(` items of the scan if and only if none of the other items hides a literal. An item hides one
exactly if it ends in `url` before a parenthesis, or is a variable with a quote or a `url(` in it. -/
theorem mask_agrees_with_scan (v : Text) :
    (∀ k : Nat, (utf8 (mask v))[k]? =
      if Part.Covers (literals v) k then some (code ' ') else (utf8 v)[k]?) ∧
    (Agrees v ↔ ∀ i ∈ scan v, i.isLiteral = false → ¬ i.Hides 0 v) ∧
    ∀ i ∈ scan v, i.isLiteral = false → ∃ front rest,
      v = front ++ (i.text ++ rest) ∧ byteLength front = i.offset ∧
        (i.Hides 0 v ↔ i.Conceals rest) :=
  ⟨getElem?_utf8_mask v, agrees_iff v, fun _ => exists_hides_iff_conceals⟩

/-- In the call of `my-url` the mask takes `url(red)` for a literal, and the scan has none. -/
theorem exists_not_agrees :
    ∃ ts sheet, Token.tokenize "a: my-url(red);".toList = .ok ts ∧ Sheet.ofTokens ts = .ok sheet ∧
      ∃ d ∈ sheet.declarations, ¬ Agrees d.value := by
  obtain ⟨ts, sheet, hts, hsheet, hdeclared⟩ := Sheet.exists_of_eval (s := "a: my-url(red);".toList)
    (f := fun _ sheet => decide (∃ d ∈ sheet.declarations, d.value = "my-url(red)".toList))
    (a := true) (by decide +kernel)
  obtain ⟨d, hd, hvalue⟩ := of_decide_eq_true hdeclared
  refine ⟨ts, sheet, hts, hsheet, d, hd, fun h => ?_⟩
  rw [hvalue] at h
  have hcovers : Part.Covers (literals "my-url(red)".toList) 7 := by decide +kernel
  have hnone : ∀ i ∈ scan "my-url(red)".toList, i.isLiteral = false := by decide +kernel
  obtain ⟨i, hi, hliteral, -⟩ := (h 7).1 hcovers
  rw [hnone i hi] at hliteral
  cases hliteral

end Item

end LessStyle
