import LessStyle.Proofs.Rule.Alias
import LessStyle.Proofs.Rule.Indent
import LessStyle.Proofs.Sheet.Lines

/-!
# Where findings point

Every rule counts lines and columns in its own way, from the start of a token or a node. `Spot` lists
what they count, and each finding is at one of these spots (`spot_findings`). A spot has a line of the
text, and a column on it unless the count goes on over a line break (`Stretched`): in a declaration
with several lines, in an import with a line break behind its name, and at a comma on a further line of
a selector (`Spot.hasPlace`).
-/

namespace LessStyle

open Text

/-- The column of a value's character stands behind the start of the declaration, and at most at the
end of the value. -/
theorem Declaration.columnAt_bounds (d : Declaration) (offset : Nat) :
    d.span.first.column ≤ d.columnAt offset ∧
      d.columnAt offset ≤ d.valueColumn + d.value.length := by
  have hvalue : d.span.first.column ≤ d.valueColumn := by
    rw [valueColumn]
    omega
  unfold columnAt
  split
  · next front rest hsplit =>
    have hlen := congrArg List.length (splitBytes?_eq_some hsplit).1
    rw [List.length_append] at hlen
    omega
  · omega

namespace Rule

/-! ## Spots -/

/-- The rules that report on values. -/
def valueRules : List Text :=
  ["zero-unit", "hex-color", "shorthand-color", "leading-zero", "require-after-space",
    "require-around-space", "operate-unit"].map String.toList

/-- On the first line of a declaration, in a column counted along its texts. -/
def OnValue (sheet : Sheet) (d : Declaration) (line column : Nat) : Prop :=
  d ∈ sheet.declarations ∧ line = d.span.first.line ∧ d.span.first.column ≤ column ∧
    column ≤ d.valueColumn + d.value.length

/-- Where the rule with a name can report on a file. -/
inductive Spot (ts : List Token) (sheet : Sheet) (name : Text) : Nat → Nat → Prop where
  | token {t : Token} (mem : t ∈ ts) : Spot ts sheet name t.span.first.line t.span.first.column
  | node {n : Node × Nat} (mem : n ∈ sheet.walk) :
      Spot ts sheet name n.1.span.first.line n.1.span.first.column
  /-- Behind the selector of a block. -/
  | brace {b : Block} (mem : b ∈ sheet.blocks) :
      Spot ts sheet name (b.span.first.advance b.selector).line
        (b.span.first.advance b.selector).column
  /-- On a further line of a statement. -/
  | further {n : Node × Nat} {k column : Nat} {l : Text} (mem : n ∈ sheet.walk)
      (line : n.1.statement.lines[k + 1]? = some l) (pos : 1 ≤ column)
      (le : column ≤ l.length + 1) : Spot ts sheet name (n.1.span.first.line + (k + 1)) column
  | value {d : Declaration} {line column : Nat} (rule : name ∈ valueRules)
      (on : OnValue sheet d line column) : Spot ts sheet name line column
  /-- The parameters of an import. -/
  | params {r : AtRule} (rule : name = "import".toList) (mem : r ∈ imports sheet) :
      Spot ts sheet name r.span.first.line
        (r.span.first.column + 1 + r.name.length + r.afterName.length)
  /-- The line of a comma between selectors, with the column of the first. -/
  | comma {b : Block} {front : Text} (rule : name = "require-newline".toList)
      (mem : b ∈ sheet.blocks) (comma : inlineComma? b.selector = some front) :
      Spot ts sheet name (b.span.first.line + front.count '\n') b.span.first.column

/-! ## Values -/

section

variable {page : Page} {sheet : Sheet} {f : Finding}

theorem onValue_columnAt {d : Declaration} (hd : d ∈ sheet.declarations) (offset : Nat) :
    OnValue sheet d d.span.first.line (d.columnAt offset) :=
  ⟨hd, rfl, d.columnAt_bounds offset⟩

theorem onValue_zeroUnit (h : f ∈ zeroUnit page sheet) : ∃ d, OnValue sheet d f.line f.column := by
  obtain ⟨d, hd, rfl⟩ := List.mem_map.1 (Finding.onePerLine_subset _ _ h)
  refine ⟨d, (List.mem_filter.1 hd).1, rfl, ?_, Nat.le_add_right _ _⟩
  change d.span.first.column ≤ d.valueColumn
  rw [Declaration.valueColumn]
  omega

theorem onValue_hexColor (h : f ∈ hexColor page sheet) : ∃ d, OnValue sheet d f.line f.column := by
  obtain ⟨d, hd, h⟩ := List.mem_flatMap.1 h
  obtain ⟨⟨offset, found⟩, -, rfl⟩ := List.mem_map.1 h
  exact ⟨d, onValue_columnAt hd offset⟩

theorem onValue_shorthandColor (h : f ∈ shorthandColor page sheet) :
    ∃ d, OnValue sheet d f.line f.column := by
  obtain ⟨d, hd, h⟩ := List.mem_filterMap.1 (Finding.onePerLine_subset _ _ h)
  obtain ⟨offset, -, rfl⟩ := Option.map_eq_some_iff.1 h
  exact ⟨d, onValue_columnAt hd offset⟩

theorem onValue_leadingZero (h : f ∈ leadingZero page sheet) :
    ∃ d, OnValue sheet d f.line f.column := by
  unfold leadingZero at h
  split at h
  · cases h
  · next d p rest hdecimals =>
    rw [← hdecimals] at h
    obtain ⟨⟨d', p'⟩, hmem, rfl⟩ := List.mem_map.1 h
    obtain ⟨d'', hd, hpair⟩ := List.mem_flatMap.1 (List.mem_filter.1 hmem).1
    obtain ⟨_, -, heq⟩ := List.mem_map.1 hpair
    obtain ⟨rfl, rfl⟩ := Prod.mk.inj heq
    exact ⟨d'', onValue_columnAt hd _⟩

theorem onValue_spaceAfter {setting : Setting} (h : f ∈ spaceAfter setting page sheet) :
    ∃ d, OnValue sheet d f.line f.column := by
  obtain ⟨d, hd, h⟩ := List.mem_flatMap.1 h
  rcases List.mem_append.1 h with h | h
  · split at h
    · rw [Option.mem_toList] at h
      unfold colonFinding? at h
      split at h
      · obtain rfl := Option.some.inj h
        refine ⟨d, hd, rfl, Nat.le_add_right _ _, ?_⟩
        change d.span.first.column + d.prop.length ≤ _
        rw [Declaration.valueColumn]
        omega
      · cases h
    · cases h
  · split at h
    · obtain ⟨offset, -, rfl⟩ := Option.map_eq_some_iff.1 (Option.mem_toList.1 h)
      exact ⟨d, onValue_columnAt hd offset⟩
    · cases h

theorem onValue_spaceAround (h : f ∈ spaceAround page sheet) :
    ∃ d, OnValue sheet d f.line f.column := by
  obtain ⟨d, hd, h⟩ := List.mem_flatMap.1 h
  obtain ⟨⟨previous, i, next⟩, -, h⟩ := List.mem_filterMap.1 h
  dsimp only at h
  unfold operatorFinding? at h
  split at h
  · split at h
    · obtain rfl := Option.some.inj h
      exact ⟨d, onValue_columnAt hd _⟩
    · cases h
  · cases h

theorem onValue_sameUnit (h : f ∈ sameUnit page sheet) : ∃ d, OnValue sheet d f.line f.column := by
  obtain ⟨d, hd, h⟩ := List.mem_flatMap.1 h
  obtain ⟨⟨previous, i, next⟩, -, h⟩ := List.mem_filterMap.1 h
  dsimp only at h
  unfold unitFinding? at h
  split at h
  · split at h
    · obtain ⟨odd, -, rfl⟩ := Option.map_eq_some_iff.1 h
      exact ⟨d, onValue_columnAt hd _⟩
    · cases h
  · cases h

/-! ## Other rules -/

variable {ts : List Token} {name : Text}

/-- All findings on an import are in one place. -/
theorem place_of_mem_importFindings {first : Option Char} {r : AtRule}
    (h : f ∈ importFindings page first r) :
    f.line = r.span.first.line ∧
      f.column = r.span.first.column + 1 + r.name.length + r.afterName.length := by
  unfold importFindings at h
  generalize importTarget r.params = target at h
  obtain ⟨quote, path⟩ := target
  dsimp only at h
  rcases List.mem_append.1 h with h | h
  · cases quote with
    | none =>
      obtain rfl := List.mem_singleton.1 h
      exact ⟨rfl, rfl⟩
    | some q =>
      dsimp only at h
      split at h
      · cases h
      · obtain rfl := List.mem_singleton.1 h
        exact ⟨rfl, rfl⟩
  · split at h
    · cases h
    · obtain rfl := List.mem_singleton.1 h
      exact ⟨rfl, rfl⟩

theorem spot_importPath (hname : name = "import".toList) (h : f ∈ importPath page sheet) :
    Spot ts sheet name f.line f.column := by
  obtain ⟨r, hr, h⟩ := List.mem_flatMap.1 h
  obtain ⟨hline, hcolumn⟩ := place_of_mem_importFindings h
  rw [hline, hcolumn]
  exact .params hname hr

theorem spot_oneSelectorPerLine (hname : name = "require-newline".toList)
    (h : f ∈ oneSelectorPerLine page sheet) : Spot ts sheet name f.line f.column := by
  obtain ⟨b, hb, h⟩ := List.mem_filterMap.1 h
  obtain ⟨front, hfront, rfl⟩ := Option.map_eq_some_iff.1 h
  exact .comma hname (List.mem_filter.1 hb).1 hfront

theorem spot_startFinding? {n : Node × Nat} (hn : n ∈ sheet.walk) {expected : Nat}
    (h : f ∈ (startFinding? page n.1.span.first expected).toList) :
    Spot ts sheet name f.line f.column := by
  obtain ⟨hline, hcolumn⟩ := place_of_startFinding? (Option.mem_toList.1 h)
  rw [hline, hcolumn]
  exact .node hn

/-- A finding on a further line of a selector stands behind the white space that the line begins
with. -/
theorem spot_continuationFindings {n : Node × Nat} (hn : n ∈ sheet.walk) {expected : Nat}
    (h : f ∈ continuationFindings page expected (n.1.span.first.line + 1)
      (n.1.statement.lines.drop 1)) : Spot ts sheet name f.line f.column := by
  obtain ⟨k, white, c, rest, hget, -, -, -, rfl⟩ := mem_continuationFindings_iff.1 h
  rw [List.getElem?_drop, Nat.add_comm] at hget
  show Spot ts sheet name (n.1.span.first.line + 1 + k) (white.length + 1)
  rw [Nat.add_assoc, Nat.add_comm 1 k]
  exact .further hn hget (Nat.le_add_left 1 _) (by simp)

theorem spot_blockIndent (h : f ∈ blockIndent page sheet) : Spot ts sheet name f.line f.column := by
  obtain ⟨⟨n, depth⟩, hn, h⟩ := List.mem_flatMap.1 (Finding.onePerLine_subset _ _ h)
  dsimp only at h
  unfold indentFindings at h
  split at h
  · rcases List.mem_append.1 h with h | h
    · exact spot_startFinding? hn h
    · exact spot_continuationFindings hn h
  · rcases List.mem_append.1 h with h | h
    · exact spot_startFinding? hn h
    · exact spot_continuationFindings hn h
  · exact spot_startFinding? hn h
  · cases h

theorem spot_variableName (h : f ∈ variableName page sheet) :
    Spot ts sheet name f.line f.column := by
  obtain ⟨d, hd, rfl⟩ := List.mem_map.1 h
  obtain ⟨depth, hn⟩ := Sheet.exists_mem_walk_of_mem_declarations (List.mem_filter.1 hd).1
  exact .node hn

theorem spot_lineComments (h : f ∈ lineComments page ts) : Spot ts sheet name f.line f.column := by
  obtain ⟨t, ht, rfl⟩ := List.mem_map.1 h
  exact .token (List.mem_filter.1 ht).1

end

/-- **Every finding is at a spot.** -/
theorem spot_findings {r : Rule} (hr : r ∈ all) (setting : Setting) (file : File) {f : Finding}
    (h : f ∈ r.findings setting file) : Spot file.tokens file.sheet r.name f.line f.column := by
  have hvalue : r.name ∈ valueRules → (∃ d, OnValue file.sheet d f.line f.column) →
      Spot file.tokens file.sheet r.name f.line f.column := fun hname ⟨_, on⟩ => .value hname on
  simp only [all, List.mem_cons, List.not_mem_nil, or_false] at hr
  -- rule by rule, in the order they run
  rcases hr with rfl | rfl | rfl | rfl | rfl | rfl | rfl | rfl | rfl | rfl | rfl | rfl | rfl | rfl
  · exact hvalue (by decide) (onValue_zeroUnit h)
  · exact hvalue (by decide) (onValue_hexColor h)
  · exact hvalue (by decide) (onValue_shorthandColor h)
  · exact hvalue (by decide) (onValue_leadingZero h)
  · exact spot_importPath rfl h
  · exact spot_variableName h
  · change f ∈ (if setting.includes ['{'] then spaceBefore file.page file.sheet else []) at h
    split at h
    · obtain ⟨b, hb, rfl⟩ := List.mem_map.1 h
      rw [Position.behind_eq_advance]
      exact .brace (List.mem_filter.1 hb).1
    · cases h
  · exact hvalue (by decide) (onValue_spaceAfter h)
  · exact hvalue (by decide) (onValue_spaceAround h)
  · exact spot_oneSelectorPerLine rfl h
  · exact spot_blockIndent h
  · exact spot_lineComments h
  · exact spot_lineComments h
  · exact hvalue (by decide) (onValue_sameUnit h)

/-! ## Spots in the text -/

/-- A column that is counted on over a line break. -/
inductive Stretched (sheet : Sheet) (name : Text) : Nat → Nat → Prop where
  /-- Somewhere in a declaration with several lines. -/
  | value {d : Declaration} {line column : Nat} (rule : name ∈ valueRules)
      (on : OnValue sheet d line column) (breaks : '\n' ∈ d.prop ++ d.between ++ d.rawValue) :
      Stretched sheet name line column
  /-- At the parameters of an import that stand on a further line. -/
  | params {r : AtRule} (rule : name = "import".toList) (mem : r ∈ imports sheet)
      (breaks : '\n' ∈ r.afterName) :
      Stretched sheet name r.span.first.line
        (r.span.first.column + 1 + r.name.length + r.afterName.length)
  /-- On the line of a comma behind a line break of a selector, in the column of the selector. -/
  | comma {b : Block} {front : Text} (rule : name = "require-newline".toList)
      (mem : b ∈ sheet.blocks) (comma : inlineComma? b.selector = some front)
      (breaks : '\n' ∈ front) :
      Stretched sheet name (b.span.first.line + front.count '\n') b.span.first.column

/-- A line of the text and a column of it, or a column that is stretched. -/
structure Spot.Checked (s : Text) (sheet : Sheet) (name : Text) (line column : Nat) : Prop where
  hasLine : ∃ l, s.line? line = some l
  one_le : 1 ≤ column
  hasPlace : s.HasPlace line column ∨ Stretched sheet name line column

section

variable {s : Text} {ts : List Token} {sheet : Sheet} {name : Text} {line column : Nat}

theorem Spot.Checked.of_hasPlace (h : s.HasPlace line column) :
    Checked s sheet name line column := by
  obtain ⟨l, hl, hpos, hle⟩ := h
  exact ⟨⟨l, hl⟩, hpos, .inl ⟨l, hl, hpos, hle⟩⟩

theorem Spot.Checked.of_stretched {start : Nat} (hline : s.HasPlace line start) (hpos : 1 ≤ column)
    (h : Stretched sheet name line column) : Checked s sheet name line column := by
  obtain ⟨l, hl, -⟩ := hline
  exact ⟨⟨l, hl⟩, hpos, .inr h⟩

/-- In a declaration without line breaks every column up to the end of the value is one of its line. -/
theorem checked_value (hlex : Token.Lexed .start .start s ts) (hsheet : Sheet.ofTokens ts = .ok sheet)
    {d : Declaration} (hname : name ∈ valueRules) (h : OnValue sheet d line column) :
    Spot.Checked s sheet name line column := by
  obtain ⟨hd, rfl, hfirst, hlast⟩ := h
  have hlen := Sheet.length_value_le hsheet hd
  obtain ⟨depth, hn⟩ := Sheet.exists_mem_walk_of_mem_declarations hd
  obtain ⟨front, rest, rfl, hstart⟩ := Sheet.standsIn hlex hsheet _ hn
  change d.span.first = Position.after front at hstart
  have hplace := hasPlace_after front ((Node.declaration d).statement ++ rest)
  rw [← hstart] at hplace
  by_cases hbreak : '\n' ∈ d.prop ++ d.between ++ d.rawValue
  · exact .of_stretched hplace (hplace.one_le.trans hfirst)
      (.value hname ⟨hd, rfl, hfirst, hlast⟩ hbreak)
  · have hadd := hasPlace_add front rest hbreak (n := column - d.span.first.column) (by
      rw [Declaration.valueColumn] at hlast
      simp only [List.length_append]
      omega)
    rw [← hstart, Nat.add_sub_cancel' hfirst] at hadd
    exact .of_hasPlace hadd

/-- The parameters of an import stand behind its name and the blanks after it. -/
theorem checked_params (hlex : Token.Lexed .start .start s ts)
    (hsheet : Sheet.ofTokens ts = .ok sheet) {r : AtRule} (hname : name = "import".toList)
    (hr : r ∈ imports sheet) :
    Spot.Checked s sheet name r.span.first.line
      (r.span.first.column + 1 + r.name.length + r.afterName.length) := by
  obtain ⟨hrule, himport⟩ := List.mem_filter.1 hr
  obtain ⟨n, hn, hstatement, hspan⟩ := Sheet.exists_mem_walk_of_mem_atRules hrule
  obtain ⟨front, rest, rfl, hstart⟩ := Sheet.standsIn hlex hsheet _ hn
  rw [hspan] at hstart
  have hplace := hasPlace_after front (n.1.statement ++ rest)
  rw [← hstart] at hplace
  by_cases hbreak : '\n' ∈ r.afterName
  · exact .of_stretched hplace (by have := hplace.one_le; omega) (.params hname hr hbreak)
  · have hmid : '\n' ∉ '@' :: r.name ++ r.afterName := by
      rw [eq_of_beq himport, List.mem_append, not_or]
      exact ⟨by decide, hbreak⟩
    have hadd := hasPlace_add front (r.params ++ rest) hmid (Nat.le_refl _)
    rw [← List.append_assoc _ r.params, ← hstatement, ← hstart] at hadd
    simp only [List.length_append, List.length_cons] at hadd
    have hcolumn : r.span.first.column + 1 + r.name.length + r.afterName.length =
        r.span.first.column + (r.name.length + 1 + r.afterName.length) := by
      omega
    rw [hcolumn]
    exact .of_hasPlace hadd

/-- The comma stands on one of the lines of its selector. -/
theorem checked_comma (hlex : Token.Lexed .start .start s ts)
    (hsheet : Sheet.ofTokens ts = .ok sheet) {b : Block} {front : Text}
    (hname : name = "require-newline".toList) (hb : b ∈ sheet.blocks)
    (hcomma : inlineComma? b.selector = some front) :
    Spot.Checked s sheet name (b.span.first.line + front.count '\n') b.span.first.column := by
  obtain ⟨ns, depth, hn⟩ := Sheet.exists_mem_walk_of_mem_blocks hb
  obtain ⟨lead, rest, rfl, hstart⟩ := Sheet.standsIn hlex hsheet _ hn
  change b.span.first = Position.after lead at hstart
  have hplace := hasPlace_after lead (b.selector ++ rest)
  rw [← hstart] at hplace
  by_cases hbreak : '\n' ∈ front
  · obtain ⟨k, -, hk⟩ := Option.map_eq_some_iff.1 hcomma
    have hselector : b.selector = front ++ b.selector.drop k := by
      rw [← hk, List.take_append_drop]
    have hline := hasPlace_after (lead ++ front) (b.selector.drop k ++ rest)
    rw [List.append_assoc, ← List.append_assoc front, ← hselector] at hline
    have hcount : (Position.after (lead ++ front)).line = b.span.first.line + front.count '\n' := by
      rw [hstart, Position.after_eq, Position.after_eq, List.count_append, Nat.add_assoc]
    rw [hcount] at hline
    exact .of_stretched hline hplace.one_le (.comma hname hb hcomma hbreak)
  · rw [List.count_eq_zero.2 hbreak]
    exact .of_hasPlace hplace

/-- **A spot is in the text** unless it is stretched. -/
theorem Spot.checked (h : Spot ts sheet name line column)
    (hlex : Token.Lexed .start .start s ts) (hsheet : Sheet.ofTokens ts = .ok sheet) :
    Checked s sheet name line column := by
  cases h with
  | @token t mem =>
    obtain ⟨before, after, hts⟩ := List.append_of_mem mem
    obtain ⟨rfl, hstart⟩ := Token.standsIn hlex hts
    rw [hstart]
    exact .of_hasPlace (hasPlace_after _ _)
  | node mem =>
    obtain ⟨front, rest, rfl, hstart⟩ := Sheet.standsIn hlex hsheet _ mem
    rw [hstart]
    exact .of_hasPlace (hasPlace_after _ _)
  | @brace b mem =>
    obtain ⟨ns, depth, hn⟩ := Sheet.exists_mem_walk_of_mem_blocks mem
    obtain ⟨front, rest, rfl, hstart⟩ := Sheet.standsIn hlex hsheet _ hn
    change b.span.first = Position.after front at hstart
    rw [hstart, ← Position.after_append, ← List.append_assoc]
    exact .of_hasPlace (hasPlace_after (front ++ b.selector) rest)
  | further mem line pos le =>
    obtain ⟨front, rest, rfl, hstart⟩ := Sheet.standsIn hlex hsheet _ mem
    rw [hstart]
    exact .of_hasPlace (hasPlace_of_getElem?_lines front rest line pos le)
  | value rule on => exact checked_value hlex hsheet rule on
  | params rule mem => exact checked_params hlex hsheet rule mem
  | comma rule mem comma => exact checked_comma hlex hsheet rule mem comma

end

end Rule

/-! ## Checking -/

namespace Diagnostic

/-- The record points into the text: to a line of it, and to a character or the end of that line. -/
def PointsInto (s : Text) (d : Diagnostic) : Prop :=
  ∃ l, s.line? d.line = some l ∧ ∀ column ∈ d.column, 1 ≤ column ∧ column ≤ l.length + 1

end Diagnostic

/-- The records of a run come from findings. -/
theorem Rule.exists_of_mem_runAll {config : Config} {file : File} {d : Diagnostic}
    (h : d ∈ runAll config file) :
    ∃ r ∈ all, ∃ setting, ∃ f ∈ r.findings setting file, d = f.toDiagnostic r.name := by
  obtain ⟨r, hr, h⟩ := List.mem_flatMap.1 h
  rw [run_eq] at h
  cases hs : config.enabled? r.name with
  | none => simp [hs] at h
  | some setting =>
    rw [hs] at h
    obtain ⟨f, hf, rfl⟩ := List.mem_map.1 h
    exact ⟨r, hr, setting, f, hf, rfl⟩

/-- The records of a check and the file that was read. -/
theorem exists_of_check {config : Config} {source : Text} {ds : List Diagnostic}
    (h : check config source = .ok ds) :
    ∃ file, File.read source.normalize = .ok file ∧
      ∀ d ∈ ds, ∃ column, d.column = some column ∧
        Rule.Spot.Checked source.normalize file.sheet d.rule d.line column := by
  unfold check at h
  split at h
  · cases h
  · next file hread =>
    obtain rfl := Except.ok.inj h
    refine ⟨file, hread, fun d hd => ?_⟩
    obtain ⟨hts, hsheet⟩ := File.tokenize_of_read hread
    obtain ⟨r, hr, setting, f, hf, rfl⟩ :=
      Rule.exists_of_mem_runAll (Diagnostic.dedup_subset _ hd)
    exact ⟨f.column, rfl,
      (Rule.spot_findings hr setting file hf).checked (Token.lexed_of_tokensFrom hts) hsheet⟩

/-- **Where records point.** Every record of a check has the number of a line of the text and a column
of at least one. It points into the text, or its column is counted on over a line break: inside a
declaration, behind the name of an import, or before a comma of a selector. So all records point into
the text if there are no such line breaks. -/
theorem check_places {config : Config} {source : Text} {ds : List Diagnostic}
    (h : check config source = .ok ds) :
    ∃ file, File.read source.normalize = .ok file ∧
      (∀ d ∈ ds, 1 ≤ d.line ∧ d.line ≤ source.normalize.lines.length ∧
        ∃ column, d.column = some column ∧ 1 ≤ column ∧
          (d.PointsInto source.normalize ∨ Rule.Stretched file.sheet d.rule d.line column)) ∧
      ((∀ d ∈ file.sheet.declarations, '\n' ∉ d.prop ++ d.between ++ d.rawValue) →
        (∀ r ∈ Rule.imports file.sheet, '\n' ∉ r.afterName) →
        (∀ b ∈ file.sheet.blocks, ∀ front ∈ Rule.inlineComma? b.selector, '\n' ∉ front) →
        ∀ d ∈ ds, d.PointsInto source.normalize) := by
  obtain ⟨file, hread, hds⟩ := exists_of_check h
  have hplace : ∀ {d : Diagnostic} {column : Nat}, d.column = some column →
      source.normalize.HasPlace d.line column → d.PointsInto source.normalize := by
    rintro d column hcolumn ⟨l, hl, hpos, hle⟩
    refine ⟨l, hl, fun c hc => ?_⟩
    obtain rfl := Option.some.inj (hcolumn.symm.trans hc)
    exact ⟨hpos, hle⟩
  refine ⟨file, hread, fun d hd => ?_, fun hvalue himport hcomma d hd => ?_⟩
  · obtain ⟨column, hcolumn, ⟨l, hl⟩, hpos, hspot⟩ := hds d hd
    obtain ⟨hfirst, hlast⟩ := Text.bounds_of_line? hl
    exact ⟨hfirst, hlast, column, hcolumn, hpos, hspot.imp_left (hplace hcolumn)⟩
  · obtain ⟨column, hcolumn, -, -, hspot⟩ := hds d hd
    refine hplace hcolumn (hspot.resolve_right fun hstretched => ?_)
    generalize d.line = line at hstretched
    cases hstretched with
    | value rule on breaks => exact hvalue _ on.1 breaks
    | params rule mem breaks => exact himport _ mem breaks
    | comma rule mem comma breaks => exact hcomma _ mem _ comma breaks

/-- Values, selectors and indentation. -/
def Config.layout : Config :=
  Dict.ofList (["zero-unit", "require-newline", "block-indent"].map fun name =>
    (name.toList, .flag true))

theorem check_places_layout :
    ∃ ds, check Config.layout "a,b\n  c\x7b d:0px; \x7d".toList = .ok ds ∧
      ds.map (·.line) = [2, 1, 2] ∧
      ∀ d ∈ ds, d.PointsInto (Text.normalize "a,b\n  c\x7b d:0px; \x7d".toList) := by
  have hlines : (check Config.layout "a,b\n  c\x7b d:0px; \x7d".toList).toOption.map
      (·.map (·.line)) = some [2, 1, 2] := by
    decide +kernel
  have hbreaks : (File.read (Text.normalize "a,b\n  c\x7b d:0px; \x7d".toList)).toOption.map
      (fun file => decide
        ((∀ d ∈ file.sheet.declarations, '\n' ∉ d.prop ++ d.between ++ d.rawValue) ∧
          (∀ r ∈ Rule.imports file.sheet, '\n' ∉ r.afterName) ∧
          ∀ b ∈ file.sheet.blocks, ∀ front ∈ Rule.inlineComma? b.selector, '\n' ∉ front)) =
      some true := by
    decide +kernel
  cases hcheck : check Config.layout "a,b\n  c\x7b d:0px; \x7d".toList with
  | error e =>
    rw [hcheck] at hlines
    cases hlines
  | ok ds =>
    obtain ⟨file, hread, -, hpoints⟩ := check_places hcheck
    rw [hread] at hbreaks
    obtain ⟨hvalue, himport, hcomma⟩ := of_decide_eq_true (Option.some.inj hbreaks)
    rw [hcheck] at hlines
    exact ⟨ds, rfl, Option.some.inj hlines, hpoints hvalue himport hcomma⟩

/-- A record that is too far to the right. -/
theorem exists_not_pointsInto {config : Config} {source : Text} (line column : Nat) (l : Text)
    (h : (check config source).toOption.map (·.map fun d => (d.line, d.column)) =
      some [(line, some column)])
    (hl : source.normalize.line? line = some l) (hlt : l.length + 1 < column) :
    ∃ ds d, check config source = .ok ds ∧ d ∈ ds ∧ ¬ d.PointsInto source.normalize := by
  cases hcheck : check config source with
  | error e =>
    rw [hcheck] at h
    cases h
  | ok ds =>
    rw [hcheck] at h
    have hplaces : ds.map (fun d => (d.line, d.column)) = [(line, some column)] := Option.some.inj h
    obtain ⟨d, hd, heq⟩ := List.mem_map.1 (hplaces ▸ List.mem_singleton_self _)
    obtain ⟨rfl, hcolumn⟩ := Prod.mk.inj heq
    refine ⟨ds, d, rfl, hd, ?_⟩
    rintro ⟨l', hl', hle⟩
    obtain rfl := Option.some.inj (hl.symm.trans hl')
    exact absurd (hle column hcolumn).2 (Nat.not_le_of_lt hlt)

/-- Records point beyond the end of a line: on a value behind a line break, on an import with its
parameters on the next line, and on a comma on a line that is shorter than the column of its block. -/
theorem check_not_pointsInto :
    (∃ ds d, check (Config.only "zero-unit".toList (.flag true)) "a:\n0px;".toList = .ok ds ∧
      d ∈ ds ∧ ¬ d.PointsInto (Text.normalize "a:\n0px;".toList)) ∧
    (∃ ds d, check (Config.only "import".toList (.flag true)) "@import\n'a';".toList = .ok ds ∧
      d ∈ ds ∧ ¬ d.PointsInto (Text.normalize "@import\n'a';".toList)) ∧
    ∃ ds d, check (Config.only "require-newline".toList (.flag true))
        "      a,\nb,c\x7b\x7d".toList = .ok ds ∧
      d ∈ ds ∧ ¬ d.PointsInto (Text.normalize "      a,\nb,c\x7b\x7d".toList) := by
  refine ⟨?_, ?_, ?_⟩
  · exact exists_not_pointsInto 1 4 "a:".toList (by decide +kernel) (by decide) (by decide)
  · exact exists_not_pointsInto 1 9 "@import".toList (by decide +kernel) (by decide) (by decide)
  · exact exists_not_pointsInto 2 7 "b,c\x7b\x7d".toList (by decide +kernel) (by decide)
      (by decide)

end LessStyle
