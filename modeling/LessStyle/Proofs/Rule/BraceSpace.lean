import LessStyle.Proofs.Rule.Alias
import LessStyle.Proofs.Sheet.Lines

/-!
# The space before a brace

The record on a brace is at the place behind the selector. The rule counts this place from the start of
the block, along the line breaks of the selector; the lexer has counted it token by token. Both are
right: the tokens of the selector stand in the text where the block begins, and the next token begins
behind them (`Sheet.exists_behind_selector`). It is the first of the text between, or the brace.
-/

namespace LessStyle

open Token (join)

/-- Of the beginnings of a text, no two end at the same position. -/
theorem Position.eq_of_after_eq {s t u : Text} (hs : s <+: u) (ht : t <+: u)
    (h : after s = after t) : s = t := by
  have hle : ∀ {a b : Text}, a <+: b → after a = after b → a = b := by
    rintro a b ⟨r, rfl⟩ hafter
    rw [after_append] at hafter
    by_contra hne
    have hr : r ≠ [] := fun hnil => hne (by rw [hnil, List.append_nil])
    exact absurd hafter (lt_advance _ hr).ne
  rcases List.prefix_or_prefix_of_prefix hs ht with hprefix | hprefix
  · exact hle hprefix h
  · exact (hle hprefix h.symm).symm

namespace Sheet

variable {s : Text} {ts : List Token} {sheet : Sheet}

/-- Every node of the walk is printed at its place in the text, where its span begins. -/
theorem exists_place (hlex : Token.Lexed .start .start s ts) (hsheet : ofTokens ts = .ok sheet)
    {n : Node × Nat} (hn : n ∈ sheet.walk) :
    ∃ front, front ++ n.1.core <+: s ∧ n.1.span.first = Position.after front := by
  obtain ⟨front, hpl⟩ := Node.exists_place_of_mem_walkList hn []
  refine ⟨front, ?_, (exact_of_lexed hlex hsheet _ hpl).first_eq⟩
  have hprint : sheet.print = s := by
    rw [print_eq_join hsheet hlex.outlined, hlex.join_eq]
  rw [← hprint]
  exact (Node.within_placesList _ _ _ hpl).2.trans (List.prefix_append _ _)

/-- The token behind a selector: it begins where the selector ends, with the text between or with the
brace. -/
structure BehindSelector (ts : List Token) (b : Block) (before own : List Token) (t : Token)
    (after : List Token) : Prop where
  tokens : ts = before ++ own ++ t :: after
  start : b.span.first = Position.after (join before)
  selector : b.selector = join own
  between : b.between ++ ['{'] <+: join (t :: after)
  first : t.span.first = Position.after (join before ++ b.selector)

/-- **A token begins behind every selector.** -/
theorem exists_behind_selector (hlex : Token.Lexed .start .start s ts)
    (hsheet : ofTokens ts = .ok sheet) {b : Block} (hb : b ∈ sheet.blocks)
    (hne : b.selector ≠ []) : ∃ before own t after, BehindSelector ts b before own t after := by
  obtain ⟨ns, depth, hn⟩ := exists_mem_walk_of_mem_blocks hb
  obtain ⟨front, hprefix, hfirst⟩ := exists_place hlex hsheet hn
  obtain ⟨before, own, after, first, more, hts, hown, hspan, horigin⟩ :=
    exists_origin hsheet _ hn
  cases horigin with
  | bare selector => exact absurd selector hne
  | @block _ _ first' us _ holds selector =>
    obtain ⟨rfl, -⟩ := List.cons.inj hown
    rw [List.append_assoc, List.cons_append] at hts
    obtain ⟨hs, hstart⟩ := Token.standsIn hlex (t := first') hts
    -- the place where the block is printed is where its tokens begin
    have hfront : front = join before := by
      refine Position.eq_of_after_eq ((List.prefix_append _ _).trans hprefix) ?_ ?_
      · exact ⟨_, hs.symm⟩
      · rw [← hfirst, ← hstart]
        exact hspan
    subst hfront
    have hbetween : b.between ++ ['{'] <+: join after := by
      have hcore : b.selector ++ (b.between ++ ['{']) <+: (Node.block b ns).core :=
        ⟨Node.printList ns ++ b.after ++ ['}'], by simp [Node.core]⟩
      have hrest := ((List.prefix_append_right_inj (join before)).2 hcore).trans hprefix
      rw [hs, List.prefix_append_right_inj, ← List.cons_append, Token.join_append, ← selector,
        List.prefix_append_right_inj] at hrest
      exact hrest
    cases after with
    | nil =>
      have hnil := List.prefix_nil.1 hbetween
      simp at hnil
    | cons t after =>
      have htokens : ts = before ++ first' :: us ++ t :: after := by
        rw [hts]
        simp
      have ht := (Token.standsIn hlex htokens).2
      rw [Token.join_append, ← selector] at ht
      exact ⟨before, first' :: us, t, after, htokens, hspan.trans hstart, selector, hbetween, ht⟩

end Sheet

namespace Rule

/-- A setting that covers something is enabled. -/
theorem isEnabled_of_includes {setting : Setting} {item : Text} (hitem : item ≠ [])
    (h : setting.includes item = true) : setting.isEnabled = true := by
  cases setting with
  | flag on => exact h
  | items names =>
    have hmem : item ∈ names := by simpa [Setting.includes] using h
    simpa [Setting.isEnabled] using List.ne_nil_of_mem hmem
  | text value =>
    obtain rfl : value = item := by simpa [Setting.includes] using h
    simpa [Setting.isEnabled] using hitem

/-- The record is on the brace of a block, at the token behind its selector. -/
structure ShowsBrace (ts : List Token) (b : Block) (d : Diagnostic) : Prop where
  message : d.message = "Must contain exactly one space before the `\x7b`".toList
  place : ∃ before own t after, Sheet.BehindSelector ts b before own t after ∧
    d.line = t.span.first.line ∧ d.column = some t.span.first.column

/-- The finding on a block is at the token behind its selector. -/
theorem showsBrace_of_mem {s : Text} {ts : List Token} {sheet : Sheet}
    (hlex : Token.Lexed .start .start s ts) (hsheet : Sheet.ofTokens ts = .ok sheet) (page : Page)
    (rule : Text) {b : Block} (hb : b ∈ sheet.blocks) (hne : b.selector ≠ []) :
    ShowsBrace ts b ((page.reportSegment (b.span.first.behind b.selector).line
      (b.span.first.behind b.selector).column ['{'] spaceBeforeMessage).toDiagnostic rule) := by
  obtain ⟨before, own, t, after, h⟩ := Sheet.exists_behind_selector hlex hsheet hb hne
  have hbehind : b.span.first.behind b.selector = t.span.first := by
    rw [Position.behind_eq_advance, h.start, h.first, Position.after_append]
  rw [hbehind]
  exact ⟨rfl, before, own, t, after, h, rfl, rfl⟩

/-- The rule on braces, as it is registered. -/
def braces : Rule :=
  ⟨"require-before-space".toList, .sheet fun setting page sheet =>
    if setting.includes ['{'] then spaceBefore page sheet else []⟩

theorem braces_mem_all : braces ∈ all :=
  List.mem_of_getElem? (show all[6]? = some braces from rfl)

theorem apply_braces {setting : Setting} (h : setting.includes ['{'] = true) (file : File) :
    braces.apply setting file =
      (spaceBefore file.page file.sheet).map (·.toDiagnostic braces.name) := by
  show ((if setting.includes ['{'] then spaceBefore file.page file.sheet else []).map
    (·.toDiagnostic braces.name)) = _
  rw [if_pos h]

/-- **Braces are reported exactly.** Let a file be read from a text, and let the rule have a setting that
covers braces. The records of the rule are those on the blocks with a selector and other than one space
behind it, one for each and in the order of the walk; calls of mixins are no blocks. Each is at the
token behind the selector, which begins with the text between or, if that is empty, is the brace. -/
theorem spaceBefore_of_read {s : Text} {file : File} {config : Config} {setting : Setting}
    (hread : File.read s = .ok file)
    (hsetting : config.get? "require-before-space".toList = some setting)
    (hincludes : setting.includes ['{'] = true) :
    join file.tokens = s ∧
      List.Forall₂ (ShowsBrace file.tokens)
        (file.sheet.blocks.filter fun b => b.selector ≠ [] ∧ b.between ≠ [' '])
        ((runAll config file).filter (·.rule = "require-before-space".toList)) := by
  obtain ⟨-, hts, hsheet⟩ := File.eq_of_read hread
  have hlex := Token.lexed_of_tokensFrom hts
  refine ⟨hlex.join_eq, ?_⟩
  have henabled : config.enabled? braces.name = some setting := by
    rw [Config.enabled?, show config.get? braces.name = some setting from hsetting]
    exact Option.filter_eq_some_iff.2 ⟨rfl, isEnabled_of_includes (List.cons_ne_nil _ _) hincludes⟩
  have hrecords : (runAll config file).filter (·.rule = braces.name) = braces.apply setting file :=
    filter_runAll_eq_apply braces_mem_all henabled
  rw [apply_braces hincludes, spaceBefore, List.map_map] at hrecords
  change List.Forall₂ _ _ ((runAll config file).filter (·.rule = braces.name))
  have hfilter : (file.sheet.blocks.filter fun b => b.selector ≠ [] ∧ b.between ≠ [' ']) =
      file.sheet.blocks.filter fun b => !b.selector.isEmpty && b.between != [' '] := by
    refine List.filter_congr fun b _ => ?_
    rw [Bool.eq_iff_iff]
    simp
  rw [hrecords, ← hfilter, List.forall₂_map_right_iff, List.forall₂_same]
  intro b hb
  obtain ⟨hb, hgap⟩ := List.mem_filter.1 hb
  exact showsBrace_of_mem hlex hsheet file.page braces.name hb (of_decide_eq_true hgap).1

/-- Selectors over several lines, one with a comment and one with a string, and a call. -/
def crowded : Text := "a,\n/*\n*/é\x7b\x7d .m()\x7b\x7d\n'\\\n'  \x7b.m()\x7d c \x7b\x7d".toList

theorem spaceBefore_of_read_crowded :
    ∃ file, File.read crowded = .ok file ∧
      (Config.only "require-before-space".toList (.items [['{']])).get?
        "require-before-space".toList = some (.items [['{']]) ∧
      (Setting.items [['{']]).includes ['{'] = true ∧
      ((runAll (Config.only "require-before-space".toList (.items [['{']])) file).filter
        (·.rule = "require-before-space".toList)).map (fun d => (d.line, d.column)) =
          [(3, some 4), (3, some 11), (5, some 2)] ∧
      List.Forall₂ (ShowsBrace file.tokens)
        (file.sheet.blocks.filter fun b => b.selector ≠ [] ∧ b.between ≠ [' '])
        ((runAll (Config.only "require-before-space".toList (.items [['{']])) file).filter
          (·.rule = "require-before-space".toList)) := by
  obtain ⟨file, hread, hplaces⟩ := File.exists_of_eval (s := crowded)
    (f := fun file =>
      ((runAll (Config.only "require-before-space".toList (.items [['{']])) file).filter
        (·.rule = "require-before-space".toList)).map (fun d => (d.line, d.column)))
    (a := [(3, some 4), (3, some 11), (5, some 2)]) (by decide +kernel)
  have hsetting : (Config.only "require-before-space".toList (.items [['{']])).get?
      "require-before-space".toList = some (.items [['{']]) := by
    decide
  have hincludes : (Setting.items [['{']]).includes ['{'] = true := by decide
  exact ⟨file, hread, hsetting, hincludes, hplaces,
    (spaceBefore_of_read hread hsetting hincludes).2⟩

end Rule

end LessStyle
