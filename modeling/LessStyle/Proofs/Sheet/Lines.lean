import LessStyle.Proofs.Sheet.Origin

/-!
# Nodes on the lines of a text

A place of a text is a line of it and a column on that line, at most one behind its last character
(`Text.HasPlace`). Places are counted from the start of a node: its statement is written there
(`Sheet.standsIn`), and up to the next line break every further column is a place
(`Text.hasPlace_add`). Further lines of a statement begin in the first column
(`Text.hasPlace_of_getElem?_lines`).
-/

namespace LessStyle

open Token (join)

/-! ## Places -/

namespace Text

/-- The text has this line, and the column is that of a character on it or the next one. -/
def HasPlace (s : Text) (line column : Nat) : Prop :=
  ∃ l, s.line? line = some l ∧ 1 ≤ column ∧ column ≤ l.length + 1

theorem HasPlace.one_le {s : Text} {line column : Nat} (h : s.HasPlace line column) :
    1 ≤ column := by
  obtain ⟨l, -, hpos, -⟩ := h
  exact hpos

/-- The number of a line is one of those of the text. -/
theorem bounds_of_line? {s l : Text} {n : Nat} (h : s.line? n = some l) :
    1 ≤ n ∧ n ≤ s.lines.length := by
  rw [line?] at h
  split at h
  · cases h
  · obtain ⟨hlt, -⟩ := List.getElem?_eq_some_iff.1 h
    omega

/-- The places behind `front`, up to the next line break. -/
theorem hasPlace_add (front : Text) {mid : Text} (rest : Text) (h : '\n' ∉ mid) {n : Nat}
    (hn : n ≤ mid.length) :
    HasPlace (front ++ (mid ++ rest)) (Position.after front).line
      ((Position.after front).column + n) := by
  have hmid : ∀ c ∈ mid, (c != '\n') = true := fun c hc => by
    simpa using fun heq : c = '\n' => h (heq ▸ hc)
  refine ⟨_, line?_after front (mid ++ rest), ?_⟩
  rw [Position.after_eq, firstLine, List.takeWhile_append_of_pos hmid]
  simp only [List.length_append]
  omega

theorem hasPlace_after (front rest : Text) :
    HasPlace (front ++ rest) (Position.after front).line (Position.after front).column :=
  hasPlace_add front rest List.not_mem_nil (Nat.le_refl 0)

/-- A further line of a text stands behind a line break. -/
theorem exists_of_getElem?_lines {s l : Text} {k : Nat} (h : (lines s)[k + 1]? = some l) :
    ∃ a b, s = a ++ '\n' :: (l ++ b) ∧ '\n' ∉ l ∧ a.count '\n' = k := by
  induction s generalizing k with
  | nil => simp [lines] at h
  | cons c s ih =>
    rw [lines] at h
    by_cases hc : c = '\n'
    · subst hc
      rw [if_pos (by simp), List.getElem?_cons_succ] at h
      cases k with
      | zero =>
        rw [head?_lines, Option.some.injEq] at h
        subst h
        refine ⟨[], s.dropWhile (· != '\n'), ?_, ?_, rfl⟩
        · rw [List.nil_append, firstLine, List.takeWhile_append_dropWhile]
        · intro hmem
          simpa using List.all_eq_true.1 List.all_takeWhile _ hmem
      | succ k =>
        obtain ⟨a, b, rfl, hl, rfl⟩ := ih h
        exact ⟨'\n' :: a, b, rfl, hl, by simp⟩
    · rw [if_neg (by simpa using hc)] at h
      obtain ⟨a, b, rfl, hl, rfl⟩ : ∃ a b, s = a ++ '\n' :: (l ++ b) ∧ '\n' ∉ l ∧ a.count '\n' = k := by
        cases hlines : lines s with
        | nil => exact absurd hlines (lines_ne_nil s)
        | cons l' ls =>
          rw [hlines] at h
          exact ih (by rw [hlines]; exact h)
      exact ⟨c :: a, b, rfl, hl, by simp [hc]⟩

/-- The places on a further line of the text `mid` behind `front`. -/
theorem hasPlace_of_getElem?_lines (front : Text) {mid l : Text} (rest : Text) {k column : Nat}
    (h : (lines mid)[k + 1]? = some l) (hpos : 1 ≤ column) (hle : column ≤ l.length + 1) :
    HasPlace (front ++ (mid ++ rest)) ((Position.after front).line + (k + 1)) column := by
  obtain ⟨a, b, rfl, hl, rfl⟩ := exists_of_getElem?_lines h
  have hplace := hasPlace_add (front ++ (a ++ ['\n'])) (b ++ rest) hl
    (n := column - 1) (by omega)
  have hafter : Position.after (front ++ (a ++ ['\n'])) =
      ⟨(Position.after front).line + (a.count '\n' + 1), 1⟩ := by
    rw [Position.after_eq, Position.after_eq, ← List.append_assoc, lastLine_concat]
    simp
    omega
  rw [hafter, Nat.add_sub_cancel' hpos] at hplace
  simpa using hplace

end Text

/-! ## Nodes -/

/-- The statement of the node is written in the text where the node begins. -/
def Node.StandsIn (s : Text) (n : Node) : Prop :=
  ∃ front rest, s = front ++ (n.statement ++ rest) ∧ n.span.first = Position.after front

theorem Token.standsIn {s : Text} {ts before after : List Token} {t : Token}
    (hlex : Lexed .start .start s ts) (hts : ts = before ++ t :: after) :
    s = join before ++ join (t :: after) ∧ t.span.first = Position.after (join before) := by
  subst hts
  have hlocated := (located_append.1 hlex.located).2.1
  exact ⟨by rw [← join_append, hlex.join_eq], by rw [hlocated]; rfl⟩

theorem Node.Arises.standsIn {s : Text} {ts : List Token} {n : Node} (h : n.Arises ts)
    (hlex : Token.Lexed .start .start s ts) : n.StandsIn s := by
  obtain ⟨before, own, after, first, more, rfl, hfirst, hspan, horigin⟩ := h
  have hstatement := horigin.statement_eq fun t ht => hlex.outlined t (by simp [ht])
  obtain ⟨hs, hstart⟩ := Token.standsIn hlex (by rw [List.append_assoc, hfirst])
  refine ⟨join before, join after, ?_, hspan.trans hstart⟩
  rw [hs, hstatement, ← hfirst, Token.join_append]

theorem Token.length_join_filter_le (p : Token → Bool) (ts : List Token) :
    (join (ts.filter p)).length ≤ (join ts).length := by
  induction ts with
  | nil => exact Nat.le_refl 0
  | cons t ts ih =>
    rw [List.filter_cons, join_cons, List.length_append]
    split
    · rw [join_cons, List.length_append]
      omega
    · omega

/-- The value without comments is no longer than the value as it is written. -/
theorem Declaration.length_value_le (before : Text) (first : Token) (us : List Token)
    (semicolon : Option Token) :
    (ofTokens before first us semicolon).value.length ≤
      (ofTokens before first us semicolon).rawValue.length := by
  have htrim := (Text.dropEndWhile_prefix Text.isWhite ((head first us).valueHead ++
    join ((head first us).rest.filter (!·.kind.isComment)))).length_le
  have hjoin := Token.length_join_filter_le (!·.kind.isComment) (head first us).rest
  simp only [ofTokens, Text.trimEnd, List.length_append] at htrim ⊢
  omega

namespace Sheet

variable {s : Text} {ts : List Token} {sheet : Sheet}

/-- **Every node stands in the text** from which it was read. -/
theorem standsIn (hlex : Token.Lexed .start .start s ts) (hsheet : ofTokens ts = .ok sheet) :
    ∀ n ∈ sheet.walk, n.1.StandsIn s :=
  fun n hn => (exists_origin hsheet n hn).standsIn hlex

theorem exists_mem_walk_of_mem_declarations {d : Declaration} (h : d ∈ sheet.declarations) :
    ∃ depth, (.declaration d, depth) ∈ sheet.walk := by
  obtain ⟨n, hn, hd⟩ := List.mem_filterMap.1 h
  split at hd
  · next d' depth =>
    obtain rfl := Option.some.inj hd
    exact ⟨depth, hn⟩
  · cases hd

theorem exists_mem_walk_of_mem_blocks {b : Block} (h : b ∈ sheet.blocks) :
    ∃ ns depth, (.block b ns, depth) ∈ sheet.walk := by
  obtain ⟨n, hn, hb⟩ := List.mem_filterMap.1 h
  split at hb
  · next b' ns depth =>
    obtain rfl := Option.some.inj hb
    exact ⟨ns, depth, hn⟩
  · cases hb

theorem exists_mem_walk_of_mem_atRules {r : AtRule} (h : r ∈ sheet.atRules) :
    ∃ n ∈ sheet.walk, n.1.statement = '@' :: r.name ++ r.afterName ++ r.params ∧
      n.1.span = r.span := by
  obtain ⟨n, hn, hr⟩ := List.mem_filterMap.1 h
  split at hr
  · obtain rfl := Option.some.inj hr
    exact ⟨_, hn, rfl, rfl⟩
  · obtain rfl := Option.some.inj hr
    exact ⟨_, hn, rfl, rfl⟩
  · cases hr

theorem length_value_le (hsheet : ofTokens ts = .ok sheet) {d : Declaration}
    (h : d ∈ sheet.declarations) : d.value.length ≤ d.rawValue.length := by
  obtain ⟨depth, hd⟩ := exists_mem_walk_of_mem_declarations h
  obtain ⟨_, _, _, _, _, -, -, -, horigin⟩ := exists_origin hsheet _ hd
  cases horigin with
  | declaration holds colon => exact Declaration.length_value_le _ _ _ _

end Sheet

end LessStyle
