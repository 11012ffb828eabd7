import LessStyle.Proofs.Rule.Alias
import LessStyle.Proofs.Value.Blanked
import LessStyle.Rule.Color

/-!
# Colours in their value

The rule on colours looks for them in a copy of the value, where the literals and then the references
to variables are blanked out, and marks what it finds in the value itself. A colour has no spaces, so it
is nothing that was blanked out: it stands in the value at the same offset (`marks_of_colorText`).
Cutting it out of the value never fails, and gives what was found in the copy (`hexColor?_eq`).
-/

namespace LessStyle

open Text

/-- A word in the second text stands in the first one at the same offset. -/
theorem Blanking.exists_of_word {s t front word rest : Text} (h : Blanking s t)
    (ht : t = front ++ (word ++ rest)) (hspace : ' ' ∉ word) (hne : word ≠ []) :
    ∃ front' rest', s = front' ++ (word ++ rest') ∧ byteLength front' = byteLength front := by
  obtain ⟨c, word, rfl⟩ := List.exists_cons_of_ne_nil hne
  rw [List.mem_cons, not_or] at hspace
  obtain ⟨front', tail, rfl, hfront, htail⟩ := h.exists_of_ne_space ht (Ne.symm hspace.1)
  obtain ⟨rest', rfl⟩ := htail.isPrefix hspace.2 (List.prefix_append word rest)
  exact ⟨front', rest', rfl, hfront.byteLength_eq.symm⟩

namespace Rule

/-! ## Patterns -/

/-- What a pattern finds stands in the text at its offset. -/
theorem exists_of_findFrom? {opens : Char → Bool} {width? : Text → Option Nat}
    {previous : Option Char} {offset k : Nat} {s found : Text}
    (h : findFrom? opens width? previous offset s = some (k, found)) :
    ∃ front tail n, s = front ++ tail ∧ k = offset + byteLength front ∧
      width? tail = some n ∧ found = tail.take n := by
  induction s generalizing previous offset with
  | nil => cases h
  | cons c s ih =>
    rw [findFrom?] at h
    split at h
    · next n hn =>
      obtain ⟨rfl, rfl⟩ := Prod.mk.inj (Option.some.inj h)
      split at hn
      · exact ⟨[], c :: s, n, rfl, rfl, hn, rfl⟩
      · cases hn
    · obtain ⟨front, tail, n, rfl, rfl, hwidth, rfl⟩ := ih h
      exact ⟨c :: front, tail, n, rfl, by rw [byteLength_cons, Nat.add_assoc], hwidth, rfl⟩

/-- A text with characters in it, none of them a space. -/
structure IsSolid (s : Text) : Prop where
  ne_nil : s ≠ []
  noSpace : ' ' ∉ s

theorem isSolid_of_colorName {s : Text} (h : s.map foldCase ∈ colorNames) : IsSolid s := by
  have hnames : ∀ name ∈ colorNames, name ≠ [] ∧ ' ' ∉ name := by decide +kernel
  obtain ⟨hne, hspace⟩ := hnames _ h
  refine ⟨fun hs => hne (by rw [hs]; rfl), fun hs => hspace ?_⟩
  exact List.mem_map_of_mem (f := foldCase) hs

theorem exists_of_colorName? {s found : Text} {k : Nat} (h : colorName? s = some (k, found)) :
    found.map foldCase ∈ colorNames ∧
      ∃ front rest, s = front ++ (found ++ rest) ∧ k = byteLength front := by
  obtain ⟨front, tail, n, rfl, rfl, hwidth, rfl⟩ := exists_of_findFrom? h
  refine ⟨?_, front, tail.drop n, by rw [List.take_append_drop], Nat.zero_add _⟩
  obtain ⟨name, hname, hn⟩ := List.exists_of_findSome?_eq_some hwidth
  split at hn
  · next hmatch =>
    obtain rfl := Option.some.inj hn
    rw [Bool.and_eq_true, beq_iff_eq] at hmatch
    rwa [hmatch.1]
  · cases hn

/-- The names of the colour functions, each with its parenthesis. -/
def colorFunctions : List Text := ["rgb(", "hsl(", "hsv("].map String.toList

theorem exists_of_colorFunction? {s found : Text} {k : Nat} (h : colorFunction? s = some (k, found)) :
    found ∈ colorFunctions ∧
      ∃ front rest, s = front ++ (found ++ rest) ∧ k = byteLength front := by
  obtain ⟨front, tail, n, rfl, rfl, hwidth, rfl⟩ := exists_of_findFrom? h
  refine ⟨?_, front, tail.drop n, by rw [List.take_append_drop], Nat.zero_add _⟩
  rw [colorFunctionWidth?] at hwidth
  split at hwidth
  · next hany =>
    obtain rfl := Option.some.inj hwidth
    obtain ⟨f, hf, hprefix⟩ := List.any_eq_true.1 hany
    have hlen : ∀ f ∈ ["rgb(", "hsl(", "hsv("], f.toList.length = 4 := by decide
    have htake := List.prefix_iff_eq_take.1 (List.isPrefixOf_iff_prefix.1 hprefix)
    rw [hlen f hf] at htake
    rw [← htake]
    exact List.mem_map_of_mem hf
  · cases hwidth

theorem isSolid_of_colorFunction {s : Text} (h : s ∈ colorFunctions) : IsSolid s := by
  have hfunctions : ∀ f ∈ colorFunctions, f ≠ [] ∧ ' ' ∉ f := by decide
  exact ⟨(hfunctions s h).1, (hfunctions s h).2⟩

/-! ## The copy of a value -/

/-- The width of a reference to a variable that begins with `c`, if one does. -/
def referenceAt? (c : Char) (s : Text) : Option Nat := if c == '@' then variableWidth? s else none

theorem maskVariables_eq_blankBy (s : Text) : maskVariables s = blankBy referenceAt? s := by
  fun_induction maskVariables s with
  | case1 => rw [blankBy]
  | case2 c s n h ih =>
    rw [dite_eq_ite, ← referenceAt?] at h
    rw [blankBy, h, ih]
  | case3 c s h ih =>
    rw [dite_eq_ite, ← referenceAt?] at h
    rw [blankBy, h, ih]

/-- The copy of a value in which the rule looks for colours. -/
def colorText (v : Text) : Text := maskVariables (mask v)

/-- The references to variables outside the literals of a value, which the copy blanks out too. -/
def references (v : Text) : List Part := findAll referenceAt? 0 (mask v)

/-- The copy of a value, byte by byte. -/
theorem getElem?_utf8_colorText (v : Text) (k : Nat) :
    (utf8 (colorText v))[k]? =
      if Part.Covers (literals v) k ∨ Part.Covers (references v) k then some (code ' ')
      else (utf8 v)[k]? := by
  have h := getElem?_utf8_blankBy referenceAt? 0 (mask v) k
  rw [← maskVariables_eq_blankBy, Nat.zero_add, getElem?_utf8_mask] at h
  rw [colorText, h, references]
  by_cases hreference : Part.Covers (findAll referenceAt? 0 (mask v)) k
  · rw [if_pos hreference, if_pos (.inr hreference)]
  · rw [if_neg hreference]
    by_cases hliteral : Part.Covers (literals v) k
    · rw [if_pos hliteral, if_pos (.inl hliteral)]
    · rw [if_neg hliteral, if_neg (not_or.2 ⟨hliteral, hreference⟩)]

/-- The bytes from `a` to `b` of a value are the text `found`, and none of them is blanked out in the
copy. -/
structure Marks (v : Text) (a b : Nat) (found : Text) : Prop where
  first : (v.splitBytes? a).isSome = true
  last : (v.splitBytes? b).isSome = true
  slice : v.sliceBytes? a b = some found
  lt : a < b
  le : b ≤ byteLength v
  literals : ∀ p ∈ literals v, b ≤ p.offset ∨ p.stop ≤ a
  references : ∀ p ∈ references v, b ≤ p.offset ∨ p.stop ≤ a

theorem marks_of_colorText {v front found rest : Text} (h : colorText v = front ++ (found ++ rest))
    (hfound : IsSolid found) :
    Marks v (byteLength front) (byteLength front + byteLength found) found := by
  rw [colorText, maskVariables_eq_blankBy] at h
  obtain ⟨front₁, rest₁, hmask, hfront₁⟩ :=
    (blanking_blankBy referenceAt? (mask v)).exists_of_word h hfound.noSpace hfound.ne_nil
  obtain ⟨front₂, rest₂, rfl, hfront₂⟩ :=
    (blanking_mask v).exists_of_word hmask hfound.noSpace hfound.ne_nil
  have hstart : byteLength front = byteLength front₂ := by rw [hfront₂, hfront₁]
  have hpos : 0 < byteLength found :=
    Nat.lt_of_lt_of_le (List.length_pos_iff.2 hfound.ne_nil) (length_le_byteLength found)
  constructor
  · rw [hstart, splitBytes?_append]
    rfl
  · rw [hstart, ← byteLength_append, ← List.append_assoc, splitBytes?_append]
    rfl
  · rw [hstart]
    exact sliceBytes?_append front₂ found rest₂
  · omega
  · rw [hstart, byteLength_append, byteLength_append]
    omega
  · intro p hp
    rw [mask_eq_blankBy] at hmask
    simpa [hfront₁] using clear_of_blankBy hmask hfound.noSpace hfound.ne_nil p hp
  · intro p hp
    simpa using clear_of_blankBy h hfound.noSpace hfound.ne_nil p hp

/-! ## The rule -/

/-- What each of the two patterns finds in the copy of a value. -/
def colorMatches (v : Text) : List (Nat × Text) :=
  (colorName? (colorText v)).toList ++ (colorFunction? (colorText v)).toList

/-- The finding on a colour in a declaration. -/
def colorFinding (page : Page) (d : Declaration) (offset : Nat) (segment : Text) : Finding :=
  page.quoteSegment d.span.first.line (d.columnAt offset) segment hexColorMessage

/-- The rule with its cuts checked: what is marked is cut out of the value, which fails unless both ends
are offsets of characters. -/
def hexColor? (page : Page) (sheet : Sheet) : Option (List Finding) := do
  let findings ← sheet.declarations.mapM fun d =>
    (colorMatches d.value).mapM fun m =>
      (d.value.sliceBytes? m.1 (m.1 + m.2.byteLength)).map (colorFinding page d m.1)
  pure findings.flatten

theorem hexColor_eq (page : Page) (sheet : Sheet) :
    hexColor page sheet =
      sheet.declarations.flatMap fun d =>
        (colorMatches d.value).map fun m => colorFinding page d m.1 m.2 :=
  rfl

theorem mem_colorMatches {v found : Text} {a : Nat} :
    (a, found) ∈ colorMatches v ↔
      colorName? (colorText v) = some (a, found) ∨ colorFunction? (colorText v) = some (a, found) := by
  rw [colorMatches, List.mem_append, Option.mem_toList, Option.mem_toList]

/-- **What is found in the copy stands in the value.** -/
theorem marks_of_mem_colorMatches {v found : Text} {a : Nat} (h : (a, found) ∈ colorMatches v) :
    Marks v a (a + byteLength found) found := by
  rcases mem_colorMatches.1 h with h | h
  · obtain ⟨hname, front, rest, htext, rfl⟩ := exists_of_colorName? h
    exact marks_of_colorText htext (isSolid_of_colorName hname)
  · obtain ⟨hfunction, front, rest, htext, rfl⟩ := exists_of_colorFunction? h
    exact marks_of_colorText htext (isSolid_of_colorFunction hfunction)

theorem mapM_eq_some_map {α β : Type} {f : α → Option β} {g : α → β} {l : List α}
    (h : ∀ a ∈ l, f a = some (g a)) : l.mapM f = some (l.map g) := by
  induction l with
  | nil => rfl
  | cons a l ih =>
    obtain ⟨ha, hl⟩ := List.forall_mem_cons.1 h
    rw [List.mapM_cons, ha, ih hl]
    rfl

/-- No cut fails, and each gives what was found in the copy. -/
theorem hexColor?_eq (page : Page) (sheet : Sheet) :
    hexColor? page sheet = some (hexColor page sheet) := by
  have hcut : ∀ d : Declaration, ∀ m ∈ colorMatches d.value,
      (d.value.sliceBytes? m.1 (m.1 + m.2.byteLength)).map (colorFinding page d m.1) =
        some (colorFinding page d m.1 m.2) := by
    intro d m hm
    rw [(marks_of_mem_colorMatches hm).slice, Option.map_some]
  rw [hexColor?, mapM_eq_some_map fun d _ => mapM_eq_some_map (hcut d), hexColor_eq, List.flatMap]
  rfl

/-- **A colour that is found is marked in the value.** The rule looks for colours in a copy of the
value that has spaces for the bytes of its literals and of the references to variables, and else the
bytes of the value. A colour that a pattern finds there, from one byte to another, is the text of the
value between these bytes, both of them offsets of characters, and it meets none of the literals and
references. So the cuts of the rule never fail. -/
theorem hexColor_marks (page : Page) (sheet : Sheet) :
    (∀ d ∈ sheet.declarations,
      (∀ k : Nat, (utf8 (colorText d.value))[k]? =
        if Part.Covers (literals d.value) k ∨ Part.Covers (references d.value) k then some (code ' ')
        else (utf8 d.value)[k]?) ∧
      ∀ a found, colorName? (colorText d.value) = some (a, found) ∨
          colorFunction? (colorText d.value) = some (a, found) →
        Marks d.value a (a + byteLength found) found) ∧
    hexColor? page sheet = some (hexColor page sheet) := by
  refine ⟨fun d _ => ⟨getElem?_utf8_colorText d.value, ?_⟩, hexColor?_eq page sheet⟩
  intro a found h
  exact marks_of_mem_colorMatches (mem_colorMatches.2 h)

/-- Behind a literal and a variable with characters of two bytes stands the name of a colour that ends
in the Kelvin sign, of three bytes. -/
theorem hexColor_marks_kelvin :
    ∃ file, File.read "a: \"é\" @ñ blac\u212a;".toList = .ok file ∧
      ∃ d ∈ file.sheet.declarations,
        colorName? (colorText d.value) = some (9, "blac\u212a".toList) ∧
        Part.Covers (literals d.value) 1 ∧ Part.Covers (references d.value) 6 ∧
        Marks d.value 9 16 "blac\u212a".toList ∧
        hexColor? file.page file.sheet = some (hexColor file.page file.sheet) := by
  obtain ⟨file, hread, hfile⟩ := File.exists_of_eval (s := "a: \"é\" @ñ blac\u212a;".toList)
    (f := fun file => decide (∃ d ∈ file.sheet.declarations,
      colorName? (colorText d.value) = some (9, "blac\u212a".toList) ∧
      Part.Covers (literals d.value) 1 ∧ Part.Covers (references d.value) 6))
    (a := true) (by decide +kernel)
  obtain ⟨d, hd, hname, hliteral, hreference⟩ := of_decide_eq_true hfile
  obtain ⟨hmarks, hcuts⟩ := hexColor_marks file.page file.sheet
  exact ⟨file, hread, d, hd, hname, hliteral, hreference, (hmarks d hd).2 _ _ (.inl hname), hcuts⟩

end Rule

end LessStyle
