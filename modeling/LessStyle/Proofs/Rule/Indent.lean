import LessStyle.Proofs.Rule.Alias
import LessStyle.Proofs.Rule.OncePerLine
import LessStyle.Proofs.Sheet.Order

/-!
# Indentation

A line is wrongly indented if a node begins on it, or a further line of a selector stands on it, behind
white space that is not four columns wide for each level (`Misindented`). The rule finds these lines
(`exists_mem_indentFindings`) and no others (`misindented_of_mem`). It goes over the nodes in the order
of the walk and over the lines of each selector, and so it never goes back to an earlier line
(`pairwise_indentFindings`). Hence it reports each of the lines once.
-/

namespace LessStyle

open Text

/-- Blocks, calls and declarations are indented. -/
def Node.isIndented : Node → Bool
  | block _ _ | call _ | declaration _ => true
  | _ => false

namespace Rule

/-- A node of the walk, at some depth, is wrongly indented on a line of the text, with the width that
was expected and the actual one. -/
inductive Misindented (s : Text) : Node × Nat → Nat → Nat × Nat → Prop where
  /-- The node begins on the line, and only white space stands before it. -/
  | start {n : Node} {depth : Nat} {white rest : Text} (indented : n.isIndented = true)
      (line : s.line? n.span.first.line = some (white ++ rest))
      (column : n.span.first.column = white.length + 1) (blank : ∀ c ∈ white, isWhite c = true)
      (ne : white.length ≠ 4 * depth) :
      Misindented s (n, depth) n.span.first.line (4 * depth, white.length)
  /-- The line is a further one of the selector, and not blank. -/
  | further {n : Node} {depth k : Nat} {white rest : Text} {c : Char}
      (segment : n.selector.lines[k + 1]? = some (white ++ c :: rest))
      (blank : ∀ c ∈ white, isWhite c = true) (text : isWhite c = false)
      (ne : white.length ≠ 4 * depth) :
      Misindented s (n, depth) (n.span.first.line + (k + 1)) (4 * depth, white.length)

/-! ## Findings on a node -/

section

variable {page : Page} {expected line : Nat} {ss : List Text} {f : Finding}

/-- **The findings on further lines of a selector.** -/
theorem mem_continuationFindings_iff : f ∈ continuationFindings page expected line ss ↔
    ∃ k white c rest, ss[k]? = some (white ++ c :: rest) ∧ (∀ a ∈ white, isWhite a = true) ∧
      isWhite c = false ∧ white.length ≠ expected ∧
      f = page.quoteColumns (line + k) (white.length + 1) (trim (white ++ c :: rest)).length
        (indentMessage expected white.length) := by
  induction ss generalizing line with
  | nil => simp [continuationFindings]
  | cons l ss ih =>
    rw [continuationFindings, List.mem_append, ih]
    constructor
    · rintro (h | ⟨k, white, c, rest, hget, hwhite, hc, hne, rfl⟩)
      · split at h
        · cases h
        · next hbad =>
          rw [not_or, List.isEmpty_iff] at hbad
          obtain ⟨white, c, rest, rfl, hwhite, hc⟩ := (trim_ne_nil_iff l).1 hbad.2
          rw [takeWhile_append_eq_left hwhite (by simpa using hc)] at hbad h
          exact ⟨0, white, c, rest, rfl, hwhite, hc, hbad.1, List.mem_singleton.1 h⟩
      · refine ⟨k + 1, white, c, rest, hget, hwhite, hc, hne, ?_⟩
        rw [Nat.add_assoc, Nat.add_comm 1 k]
    · rintro ⟨k, white, c, rest, hget, hwhite, hc, hne, rfl⟩
      cases k with
      | zero =>
        obtain rfl := Option.some.inj hget
        have htrim := (trim_ne_nil_iff _).2 ⟨white, c, rest, rfl, hwhite, hc⟩
        left
        rw [takeWhile_append_eq_left hwhite (by simpa using hc), if_neg (by simp [hne, htrim])]
        exact List.mem_singleton_self _
      | succ k =>
        right
        refine ⟨k, white, c, rest, hget, hwhite, hc, hne, ?_⟩
        rw [Nat.add_assoc, Nat.add_comm 1 k]

theorem le_line_of_mem_continuationFindings (h : f ∈ continuationFindings page expected line ss) :
    line ≤ f.line := by
  obtain ⟨k, white, c, rest, -, -, -, -, rfl⟩ := mem_continuationFindings_iff.1 h
  exact Nat.le_add_right line k

theorem pairwise_continuationFindings (page : Page) (expected line : Nat) (ss : List Text) :
    (continuationFindings page expected line ss).Pairwise (·.line ≤ ·.line) := by
  induction ss generalizing line with
  | nil => exact .nil
  | cons l ss ih =>
    rw [continuationFindings]
    refine List.pairwise_append.2 ⟨?_, ih _, ?_⟩
    · split
      · exact .nil
      · exact List.pairwise_singleton _ _
    · intro f hf g hg
      have hline : f.line = line := by
        split at hf
        · cases hf
        · rw [List.mem_singleton.1 hf]
          rfl
      have hle := le_line_of_mem_continuationFindings hg
      omega

end

theorem message_quoteColumns {s l : Text} {line : Nat} (hl : s.line? line = some l)
    (column width : Nat) (message : Text) :
    ((Page.of s).quoteColumns line column width message).message =
      '`' :: l ++ '`' :: ' ' :: message := by
  show '`' :: (Page.of s).line line ++ '`' :: ' ' :: message = _
  rw [Page.line_of, hl]
  rfl

theorem place_of_startFinding? {page : Page} {p : Position} {expected : Nat} {f : Finding}
    (h : startFinding? page p expected = some f) : f.line = p.line ∧ f.column = p.column := by
  unfold startFinding? at h
  dsimp only at h
  split at h
  · split at h
    · cases h
    · obtain rfl := Option.some.inj h
      exact ⟨rfl, rfl⟩
  · cases h

/-- The finding on the start of a node, which is at some place of the text. -/
theorem startFinding?_eq_some_iff {s l : Text} {p : Position} {expected : Nat} {f : Finding}
    (hl : s.line? p.line = some l) (hpos : 1 ≤ p.column) (hle : p.column ≤ l.length + 1) :
    startFinding? (.of s) p expected = some f ↔
      ∃ white rest, l = white ++ rest ∧ p.column = white.length + 1 ∧
        (∀ c ∈ white, isWhite c = true) ∧ white.length ≠ expected ∧
        f = (Page.of s).quoteColumns p.line p.column l.length (indentMessage expected white.length) := by
  -- the place is on the line, so there is a character in every column before it
  have hlen : (l.take (p.column - 1)).length = p.column - 1 := by
    rw [List.length_take]
    omega
  unfold startFinding? leadingWidth?
  rw [Page.line_of, hl]
  dsimp only [Option.getD_some]
  constructor
  · intro h
    split at h
    · next actual hactual =>
      split at hactual
      · next hwhite =>
        obtain rfl := Option.some.inj hactual
        split at h
        · cases h
        · next hne =>
          refine ⟨l.take (p.column - 1), l.drop (p.column - 1), ?_, ?_, ?_, hne, ?_⟩
          · rw [List.take_append_drop]
          · omega
          · exact List.all_eq_true.1 hwhite
          · exact (Option.some.inj h).symm
      · cases hactual
    · cases h
  · rintro ⟨white, rest, rfl, hcolumn, hwhite, hne, rfl⟩
    have htake : (white ++ rest).take (p.column - 1) = white := by
      rw [hcolumn, Nat.add_sub_cancel, List.take_left]
    rw [htake, if_pos (List.all_eq_true.2 hwhite)]
    dsimp only
    rw [if_neg hne]

theorem indentFindings_eq (page : Page) (n : Node) (depth : Nat) :
    indentFindings page n depth =
      (if n.isIndented then (startFinding? page n.span.first (4 * depth)).toList else []) ++
        continuationFindings page (4 * depth) (n.span.first.line + 1) (n.selector.lines.drop 1) := by
  rw [Nat.mul_comm 4 depth]
  cases n with
  | declaration d => exact (List.append_nil _).symm
  | _ => rfl

section

variable {s : Text} {n : Node} {depth : Nat} {f : Finding}

/-- What the rule finds on a node that stands in the text is wrongly indented. The finding is on the
first column behind the white space and quotes the line. -/
theorem misindented_of_mem (hn : n.StandsIn s) (hf : f ∈ indentFindings (.of s) n depth) :
    ∃ l expected actual, s.line? f.line = some l ∧
      Misindented s (n, depth) f.line (expected, actual) ∧ f.column = actual + 1 ∧
      f.message = '`' :: l ++ '`' :: ' ' :: indentMessage expected actual := by
  obtain ⟨front, rest, rfl, hstart⟩ := hn
  rw [indentFindings_eq, List.mem_append] at hf
  rcases hf with hf | hf
  · split at hf
    · next hindented =>
      obtain ⟨l, hl, hpos, hle⟩ := hasPlace_after front (n.statement ++ rest)
      rw [← hstart] at hl hpos hle
      obtain ⟨white, rest', rfl, hcolumn, hwhite, hne, rfl⟩ :=
        (startFinding?_eq_some_iff hl hpos hle).1 (Option.mem_toList.1 hf)
      exact ⟨white ++ rest', 4 * depth, white.length, hl, .start hindented hl hcolumn hwhite hne,
        hcolumn, message_quoteColumns hl _ _ _⟩
    · cases hf
  · obtain ⟨k, white, c, rest', hget, hwhite, hc, hne, rfl⟩ := mem_continuationFindings_iff.1 hf
    rw [List.getElem?_drop, Nat.add_comm 1 k] at hget
    have hline : n.span.first.line + 1 + k = n.span.first.line + (k + 1) := by
      omega
    -- a further line of the selector is one of the text, as the statement stands there
    obtain ⟨more, hmore⟩ := n.selector_isPrefix_statement
    have hplace := hasPlace_of_getElem?_lines front (more ++ rest) hget (Nat.le_refl 1)
      (Nat.le_add_left 1 _)
    rw [← List.append_assoc n.selector, hmore, ← hstart] at hplace
    obtain ⟨l, hl, -, -⟩ := hplace
    rw [hline]
    exact ⟨l, 4 * depth, white.length, hl, .further hget hwhite hc hne, rfl,
      message_quoteColumns hl _ _ _⟩

/-- The rule finds what is wrongly indented. -/
theorem exists_mem_indentFindings {line : Nat} {b : Nat × Nat} (h : Misindented s (n, depth) line b) :
    ∃ f ∈ indentFindings (.of s) n depth, f.line = line := by
  rw [indentFindings_eq]
  cases h with
  | start indented hl column blank ne =>
    have hfinding := (startFinding?_eq_some_iff hl (by omega) (by simp [column])).2
      ⟨_, _, rfl, column, blank, ne, rfl⟩
    rw [if_pos indented]
    exact ⟨_, List.mem_append_left _ (Option.mem_toList.2 hfinding), rfl⟩
  | @further _ _ k white rest c segment blank text ne =>
    have hget : (n.selector.lines.drop 1)[k]? = some (white ++ c :: rest) := by
      rw [List.getElem?_drop, Nat.add_comm 1 k, segment]
    refine ⟨_, List.mem_append_right _ (mem_continuationFindings_iff.2
      ⟨k, white, c, rest, hget, blank, text, ne, rfl⟩), ?_⟩
    show n.span.first.line + 1 + k = n.span.first.line + (k + 1)
    omega

/-- A node can be wrongly indented on its first line and on further lines of its selector. -/
theorem Misindented.line_bounds {line : Nat} {b : Nat × Nat} (h : Misindented s (n, depth) line b) :
    n.span.first.line ≤ line ∧ line ≤ n.span.first.line + n.selector.count '\n' := by
  cases h with
  | start => omega
  | further segment =>
    obtain ⟨front, rest, hselector, -, rfl⟩ := exists_of_getElem?_lines segment
    rw [hselector, List.count_append, List.count_cons_self]
    omega

/-- A node has one indentation on a line. -/
theorem Misindented.unique {line : Nat} {b b' : Nat × Nat} (h : Misindented s (n, depth) line b)
    (h' : Misindented s (n, depth) line b') : b' = b := by
  cases h with
  | start indented hl column blank ne =>
    generalize hline : n.span.first.line = line at h'
    cases h' with
    | start indented' hl' column' blank' ne' =>
      rw [Prod.mk.injEq]
      omega
    | further => omega
  | @further _ _ k white rest c segment blank text ne =>
    generalize hline : n.span.first.line + (k + 1) = line at h'
    cases h' with
    | start => omega
    | @further _ _ k' white' rest' c' segment' blank' text' ne' =>
      obtain rfl : k' = k := by
        omega
      have heq := Option.some.inj (segment'.symm.trans segment)
      have hwhite := congrArg (List.takeWhile isWhite) heq
      rw [takeWhile_append_eq_left blank' (by simpa using text'),
        takeWhile_append_eq_left blank (by simpa using text)] at hwhite
      rw [hwhite]

theorem pairwise_indentFindings_node (page : Page) (n : Node) (depth : Nat) :
    (indentFindings page n depth).Pairwise (·.line ≤ ·.line) := by
  rw [indentFindings_eq]
  refine List.pairwise_append.2 ⟨?_, pairwise_continuationFindings _ _ _ _, ?_⟩
  · split
    · cases startFinding? page n.span.first (4 * depth) with
      | none => exact .nil
      | some f => exact List.pairwise_singleton _ _
    · exact .nil
  · intro f hf g hg
    have hline : f.line = n.span.first.line := by
      split at hf
      · exact (place_of_startFinding? (Option.mem_toList.1 hf)).1
      · cases hf
    have hle := le_line_of_mem_continuationFindings hg
    omega

end

/-- **The rule never goes back to an earlier line.** -/
theorem pairwise_indentFindings {s : Text} {ts : List Token} {sheet : Sheet}
    (hlex : Token.Lexed .start .start s ts) (hsheet : Sheet.ofTokens ts = .ok sheet) :
    (sheet.walk.flatMap fun (n, depth) => indentFindings (.of s) n depth).Pairwise
      (·.line ≤ ·.line) := by
  refine List.pairwise_flatMap.2 ⟨fun n _ => pairwise_indentFindings_node _ n.1 n.2, ?_⟩
  refine (Sheet.pairwise_lines hlex hsheet).imp_of_mem ?_
  intro a b ha hb hle f hf g hg
  obtain ⟨_, _, _, -, hlast, -⟩ := misindented_of_mem (Sheet.standsIn hlex hsheet a ha) hf
  obtain ⟨_, _, _, -, hfirst, -⟩ := misindented_of_mem (Sheet.standsIn hlex hsheet b hb) hg
  -- the last line of the one selector is not behind the first line of the next node
  calc f.line ≤ a.1.span.first.line + a.1.selector.count '\n' := hlast.line_bounds.2
    _ ≤ b.1.span.first.line := hle
    _ ≤ g.line := hfirst.line_bounds.1

/-- A record on wrong indentation shows both widths, with the line. -/
def ShowsIndent (s : Text) (width : Nat × Nat) (d : Diagnostic) : Prop :=
  ∃ l, s.line? d.line = some l ∧ d.column = some (width.2 + 1) ∧
    d.message = '`' :: l ++ '`' :: ' ' :: indentMessage width.1 width.2

/-- **Indentation is reported once for each line.** Let a file be read from the text `s` and the rule be
enabled. The lines of its records go strictly upwards, and they are the lines on which a node is
wrongly indented: where it begins behind white space only, or on a further line of its selector. Each
record shows the expected and the actual width of the first such node in the walk. -/
theorem blockIndent_oncePerLine {s : Text} {file : File} {config : Config} {setting : Setting}
    (hread : File.read s = .ok file)
    (henabled : config.enabled? "block-indent".toList = some setting) :
    Diagnostic.OncePerLine file.sheet.walk (Misindented s) (ShowsIndent s)
      ((runAll config file).filter (·.rule = "block-indent".toList)) := by
  obtain ⟨hpage, hts, hsheet⟩ := File.eq_of_read hread
  have hlex := Token.lexed_of_tokensFrom hts
  have hstands := Sheet.standsIn hlex hsheet
  have hmem : onSheet "block-indent" blockIndent ∈ all := by
    simp [all]
  rw [filter_runAll_onSheet hmem henabled, hpage]
  refine Diagnostic.oncePerLine_flatMap (pairwise_indentFindings hlex hsheet) ?_ ?_ ?_ ?_
  · intro n hn f hf
    obtain ⟨_, _, _, -, hmis, -⟩ := misindented_of_mem (hstands n hn) hf
    exact Nat.lt_of_lt_of_le (Sheet.one_le_line hlex hsheet hn) hmis.line_bounds.1
  · intro n hn line b c hb hc
    exact hb.unique hc
  · intro n hn line b hmis
    exact exists_mem_indentFindings hmis
  · intro n hn f hf
    obtain ⟨l, expected, actual, hl, hmis, hcolumn, hmessage⟩ := misindented_of_mem (hstands n hn) hf
    exact ⟨(expected, actual), hmis, l, hl, congrArg some hcolumn, hmessage⟩

/-- A further line of a selector and a declaration that are wrongly indented. -/
def ragged : Text := "a,\n b\x7b c:d;\n  e:f; g:h\x7d".toList

theorem blockIndent_oncePerLine_ragged :
    ∃ file ds, File.read ragged = .ok file ∧
      (Config.only "block-indent".toList (.flag true)).enabled? "block-indent".toList =
        some (.flag true) ∧
      (runAll (Config.only "block-indent".toList (.flag true)) file).filter
        (·.rule = "block-indent".toList) = ds ∧
      ds.map (fun d => (d.line, d.column)) = [(2, some 2), (3, some 3)] ∧
      Diagnostic.OncePerLine file.sheet.walk (Misindented ragged) (ShowsIndent ragged) ds := by
  obtain ⟨file, hread, hplaces⟩ := File.exists_of_eval (s := ragged)
    (f := fun file => ((runAll (Config.only "block-indent".toList (.flag true)) file).filter
      (·.rule = "block-indent".toList)).map fun d => (d.line, d.column))
    (a := [(2, some 2), (3, some 3)]) (by decide +kernel)
  have henabled : (Config.only "block-indent".toList (.flag true)).enabled?
      "block-indent".toList = some (.flag true) := by
    decide
  exact ⟨file, _, hread, henabled, rfl, hplaces, blockIndent_oncePerLine hread henabled⟩

end Rule

end LessStyle
