import LessStyle.Proofs.Sheet.Lines
import LessStyle.Proofs.Text.Utf8

/-!
# Columns of values

The column of a character of a value is counted from the start of the declaration, along the property,
the text between and the value. The count is right as long as it meets no line break and no comment
(`Declaration.OneLine`): then what is counted is what stands in the text, and the column leads to the
character it was counted for (`Sheet.exists_line_columnAt`).
-/

namespace LessStyle

open Text

/-- The column of the character behind `front` in a value. -/
theorem Declaration.columnAt_byteLength {d : Declaration} {front rest : Text}
    (h : d.value = front ++ rest) : d.columnAt front.byteLength = d.valueColumn + front.length := by
  rw [columnAt, h, splitBytes?_append]

/-- The character behind `front` and a text without line breaks, on the line where `front` ends. -/
theorem Text.getElem?_line_add (front : Text) {mid : Text} {c : Char} (rest : Text)
    (hmid : '\n' ∉ mid) (hc : c ≠ '\n') :
    ∃ l, (front ++ (mid ++ c :: rest)).line? (Position.after front).line = some l ∧
      l[(Position.after front).column + mid.length - 1]? = some c := by
  refine ⟨_, line?_after front (mid ++ c :: rest), ?_⟩
  have hplain : ∀ d ∈ mid, (d != '\n') = true := by
    intro d hd
    simpa using fun heq : d = '\n' => hmid (heq ▸ hd)
  have hcolumn : (Position.after front).column + mid.length - 1 =
      (front.lastLine ++ mid).length := by
    rw [Position.after_eq, List.length_append]
    show 1 + front.lastLine.length + mid.length - 1 = _
    omega
  have hline : firstLine (mid ++ c :: rest) = mid ++ c :: firstLine rest := by
    rw [firstLine, List.takeWhile_append_of_pos hplain, List.takeWhile_cons_of_pos (by simpa using hc)]
    rfl
  rw [hcolumn, hline, ← List.append_assoc, List.getElem?_append_right (Nat.le_refl _)]
  simp

/-- A declaration on one line: no line break up to the end of its value, which is written as it is
kept, without a comment inside. -/
structure Declaration.OneLine (d : Declaration) : Prop where
  prop : '\n' ∉ d.prop
  between : '\n' ∉ d.between
  value : '\n' ∉ d.value
  written : d.value <+: d.rawValue

namespace Sheet

variable {s : Text} {ts : List Token} {sheet : Sheet} {d : Declaration}

/-- The characters of a value stand in the columns that are counted for them. -/
theorem exists_line_columnAt (hlex : Token.Lexed .start .start s ts)
    (hsheet : ofTokens ts = .ok sheet) (hd : d ∈ sheet.declarations) (hone : d.OneLine)
    {front rest : Text} {c : Char} (hvalue : d.value = front ++ c :: rest) :
    ∃ l, s.line? d.span.first.line = some l ∧ l[d.columnAt front.byteLength - 1]? = some c := by
  obtain ⟨depth, hn⟩ := exists_mem_walk_of_mem_declarations hd
  obtain ⟨before, after, rfl, hstart⟩ := standsIn hlex hsheet _ hn
  change d.span.first = Position.after before at hstart
  obtain ⟨more, hraw⟩ := hone.written
  have hbreak : '\n' ∉ front ++ c :: rest := hvalue ▸ hone.value
  have hmid : '\n' ∉ d.prop ++ d.between ++ front := by
    intro hmem
    simp only [List.mem_append] at hmem
    rcases hmem with (hmem | hmem) | hmem
    · exact hone.prop hmem
    · exact hone.between hmem
    · exact hbreak (List.mem_append_left _ hmem)
  have hc : c ≠ '\n' := by
    rintro rfl
    exact hbreak (by simp)
  -- the statement up to the character, and what follows it
  have hstatement : (Node.declaration d).statement ++ after =
      (d.prop ++ d.between ++ front) ++ c :: (rest ++ more ++ after) := by
    rw [Node.statement, ← hraw, hvalue]
    simp
  have hcolumn : d.columnAt front.byteLength =
      (Position.after before).column + (d.prop ++ d.between ++ front).length := by
    rw [Declaration.columnAt_byteLength hvalue, Declaration.valueColumn, hstart]
    simp only [List.length_append]
    omega
  rw [hstatement, hcolumn, hstart]
  exact getElem?_line_add before _ hmid hc

/-- **Columns of values are exact on one line.** Let a declaration of a sheet stand on one line. At
every byte offset of its value where a character begins, the column that is counted for the offset is
that of the same character on the line of the text where the declaration starts. -/
theorem columnAt_of_tokenize (hts : Token.tokenize s = .ok ts) (hsheet : ofTokens ts = .ok sheet)
    (hd : d ∈ sheet.declarations) (hone : d.OneLine) {front rest : Text} {c : Char}
    (hvalue : d.value = front ++ c :: rest) :
    ∃ l, s.line? d.span.first.line = some l ∧ 1 ≤ d.columnAt front.byteLength ∧
      l[d.columnAt front.byteLength - 1]? = some c := by
  have hlex := Token.lexed_of_tokensFrom hts
  obtain ⟨l, hl, hchar⟩ := exists_line_columnAt hlex hsheet hd hone hvalue
  refine ⟨l, hl, ?_, hchar⟩
  obtain ⟨depth, hn⟩ := exists_mem_walk_of_mem_declarations hd
  obtain ⟨before, _, -, hstart⟩ := standsIn hlex hsheet _ hn
  change d.span.first = Position.after before at hstart
  rw [Declaration.columnAt_byteLength hvalue, Declaration.valueColumn, hstart, Position.after_eq]
  show 1 ≤ 1 + before.lastLine.length + d.prop.length + d.between.length + front.length
  omega

/-- A declaration with letters of two bytes. -/
def lettered : Declaration where
  prop := "é".toList
  between := " : ".toList
  value := "\"ü\" #aab".toList
  rawValue := "\"ü\" #aab".toList
  semicolon := false
  before := " ".toList
  span := ⟨⟨1, 4⟩, ⟨1, 15⟩⟩

theorem columnAt_of_tokenize_lettered :
    ∃ ts sheet l, Token.tokenize "a\x7b é : \"ü\" #aab\x7d".toList = .ok ts ∧
      ofTokens ts = .ok sheet ∧ lettered ∈ sheet.declarations ∧ lettered.OneLine ∧
      lettered.value = "\"ü\" ".toList ++ '#' :: "aab".toList ∧
      line? "a\x7b é : \"ü\" #aab\x7d".toList 1 = some l ∧
      lettered.columnAt (byteLength "\"ü\" ".toList) = 12 ∧ l[11]? = some '#' := by
  obtain ⟨ts, sheet, hts, hsheet, hdeclarations⟩ := exists_of_eval
    (s := "a\x7b é : \"ü\" #aab\x7d".toList) (f := fun _ sheet => sheet.declarations)
    (a := [lettered]) (by decide +kernel)
  have hd : lettered ∈ sheet.declarations := by
    rw [hdeclarations]
    exact List.mem_singleton_self _
  have hone : lettered.OneLine := ⟨by decide, by decide, by decide, List.prefix_rfl⟩
  have hcolumn : lettered.columnAt (byteLength "\"ü\" ".toList) = 12 := by decide
  have hvalue : lettered.value = "\"ü\" ".toList ++ '#' :: "aab".toList := rfl
  obtain ⟨l, hl, -, hchar⟩ := columnAt_of_tokenize hts hsheet hd hone hvalue
  rw [hcolumn] at hchar
  exact ⟨ts, sheet, l, hts, hsheet, hd, hone, hvalue, hl, hcolumn, hchar⟩

end Sheet

end LessStyle
