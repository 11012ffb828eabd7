import LessStyle.Proofs.Sheet.Mixins

/-!
# Where nodes come from

Every node of a sheet was read from tokens that stand side by side: those of its statement. What is
known of them when the node is made, how far the statement reaches and where its tokens go, is an
`Origin` of the node. The children of a block, the blanks before its closing brace and its end come
later and do not matter to it (`Node.Origin.close`). One step adds at most one node, with its origin
(`Draft.Step.traced`), so every node of a sheet has one (`Sheet.exists_origin`).

The sheet keeps no tokens, but they are found again: `Node.tokens` spells the statement of a node from
its start on (`Node.Arises.exists_tokens`).
-/

namespace LessStyle

open Token (join)

/-! ## Statements -/

/-- The statement that begins with `first` has the tokens `us` after it: it stops outside parentheses,
and only blanks and comments stand between these tokens and the place where it stops. -/
structure Statement.Holds (first : Token) (us after : List Token) : Prop where
  begins : Draft.beginsStatement first (us ++ after) = true
  closes : ∀ paren, (extentOf first (us ++ after)).stop ≠ .unclosed paren
  exists_gap : ∃ gap : List Token, (∀ t ∈ gap, t.kind.isTrivia = true) ∧
    (first :: (us ++ after)).take (extentOf first (us ++ after)).width = first :: (us ++ gap)

/-- A token that begins a statement is neither blank nor comment. -/
theorem Draft.isTrivia_of_beginsStatement {first : Token} {ts : List Token}
    (h : beginsStatement first ts = true) : first.kind.isTrivia = false := by
  cases hk : first.kind <;> simp_all [beginsStatement, Token.Kind.isTrivia]

/-- Blanks and comments are split off behind the first token of a statement. -/
theorem exists_splitTrivia_cons {first : Token} (h : first.kind.isTrivia = false)
    (ts : List Token) :
    ∃ us gap, splitTrivia (first :: ts) = (first :: us, gap) ∧ ts = us ++ gap ∧
      ∀ t ∈ gap, t.kind.isTrivia = true := by
  have hsplit := splitTrivia_append (first :: ts)
  have hgap : ∀ t ∈ (splitTrivia (first :: ts)).2, t.kind.isTrivia = true :=
    fun t => isTrivia_of_mem_splitTrivia
  cases hfront : (splitTrivia (first :: ts)).1 with
  | nil =>
    rw [hfront, List.nil_append] at hsplit
    rw [hsplit] at hgap
    rw [hgap first List.mem_cons_self] at h
    cases h
  | cons t us =>
    rw [hfront, List.cons_append] at hsplit
    obtain ⟨rfl, hts⟩ := List.cons.inj hsplit
    exact ⟨us, _, Prod.ext hfront rfl, hts.symm, hgap⟩

/-- A statement that stops behind the tokens `us` and blanks and comments. -/
theorem Statement.holds_of_extentOf {first : Token} {us gap rest : List Token} {e : Extent}
    (hb : Draft.beginsStatement first (us ++ gap ++ rest) = true)
    (he : extentOf first (us ++ gap ++ rest) = e) (hw : e.width = (us ++ gap).length + 1)
    (hstop : ∀ paren, e.stop ≠ .unclosed paren) (hgap : ∀ t ∈ gap, t.kind.isTrivia = true) :
    Holds first us (gap ++ rest) := by
  rw [List.append_assoc] at hb he
  refine ⟨hb, by rwa [he], gap, hgap, ?_⟩
  rw [he, hw, List.take_succ_cons, ← List.append_assoc, List.take_left]

/-- A statement without a semicolon that is left before its last blanks and comments. -/
theorem Statement.holds_of_core {first : Token} {us rest : List Token}
    (hb : Draft.beginsStatement first (us ++ rest) = true)
    (hstop : ∀ paren, (extentOf first (us ++ rest)).stop ≠ .unclosed paren)
    (hcore : us = (splitTrivia ((us ++ rest).take ((extentOf first (us ++ rest)).width - 1))).1) :
    Holds first us rest := by
  obtain ⟨w, hw⟩ := Draft.exists_width hb
  rw [hw, Nat.add_sub_cancel] at hcore
  have hsplit := splitTrivia_append ((us ++ rest).take w)
  rw [← hcore] at hsplit
  refine ⟨hb, hstop, (splitTrivia ((us ++ rest).take w)).2,
    fun t => isTrivia_of_mem_splitTrivia, ?_⟩
  rw [hsplit, hw, List.take_succ_cons]

/-! ## Origins -/

namespace Node

/-- The text of the statement of a node: a selector, a call, a declaration, or an at-rule with its
parameters. A comment is no statement. -/
def statement : Node → Text
  | atRule r => '@' :: r.name ++ r.afterName ++ r.params
  | atBlock r _ => '@' :: r.name ++ r.afterName ++ r.params
  | block b _ => b.selector
  | call c => c.selector
  | declaration d => d.prop ++ d.between ++ d.rawValue
  | comment _ => []

/-- The tokens that spell the statement of a node. -/
def tokens (ts : List Token) (n : Node) : List Token :=
  Token.spelling ts n.span.first n.statement

/-- The node is an at-rule, with or without a block. -/
def isAtRule : Node → Bool
  | atRule _ => true
  | atBlock _ _ => true
  | _ => false

/-- The at-rule has its name from `first` and its parameters from the tokens `us`, none of which ends
an at-rule. Nothing is known of their parentheses. -/
structure HasParams (r : AtRule) (first : Token) (us : List Token) : Prop where
  kind : first.kind = .atWord
  name : r.name = first.text.drop 1
  params : r.afterName ++ r.params = join us
  unended : ∀ t ∈ us, Draft.endsParams t = false

/-- How a node comes from tokens: `own` are those of its statement, `after` those behind them. -/
inductive Origin : Node → List Token → List Token → Prop where
  | comment {c : Comment} {after : List Token} : Origin (.comment c) [] after
  | bare {b : Block} {ns : List Node} {after : List Token} (selector : b.selector = []) :
      Origin (.block b ns) [] after
  | block {b : Block} {ns : List Node} {first : Token} {us after : List Token}
      (holds : Statement.Holds first us after) (selector : b.selector = join (first :: us)) :
      Origin (.block b ns) (first :: us) after
  | call {c : Call} {first : Token} {us after : List Token}
      (holds : Statement.Holds first us after) (selector : c.selector = join (first :: us)) :
      Origin (.call c) (first :: us) after
  | declaration {before : Text} {semicolon : Option Token} {first : Token} {us after : List Token}
      (holds : Statement.Holds first us after)
      (colon : (Statement.extentOf first (us ++ after)).colon = true) :
      Origin (.declaration (.ofTokens before first us semicolon)) (first :: us) after
  | atRule {r : AtRule} {first : Token} {us after : List Token} (params : HasParams r first us) :
      Origin (.atRule r) (first :: us) after
  | atBlock {r : AtRule} {ns : List Node} {first : Token} {us after : List Token}
      (params : HasParams r first us) : Origin (.atBlock r ns) (first :: us) after

/-- A node has an origin among tokens, which begins where the node does. -/
def Arises (ts : List Token) (n : Node) : Prop :=
  ∃ before own after first more, ts = before ++ own ++ after ∧ own ++ after = first :: more ∧
    n.span.first = first.span.first ∧ n.Origin own after

/-- What comes after the opening of a block does not matter to its origin. -/
theorem Origin.close {o : Opening} {ns : List Node} {text : Text} {last : Position}
    {own after : List Token} (h : (o.close ns text last).Origin own after) (ns' : List Node)
    (text' : Text) (last' : Position) : (o.close ns' text' last').Origin own after := by
  cases o with
  | atRule r =>
    cases h with
    | atBlock params => exact .atBlock ⟨params.kind, params.name, params.params, params.unended⟩
  | block b =>
    cases h with
    | bare selector => exact .bare selector
    | block holds selector => exact .block holds selector

theorem Arises.close {ts : List Token} {o : Opening} {ns : List Node} {text : Text}
    {last : Position} (h : (o.close ns text last).Arises ts) (ns' : List Node) (text' : Text)
    (last' : Position) : (o.close ns' text' last').Arises ts := by
  obtain ⟨before, own, after, first, more, hts, hfirst, hspan, horigin⟩ := h
  rw [Opening.span_close] at hspan
  refine ⟨before, own, after, first, more, hts, hfirst, ?_, horigin.close _ _ _⟩
  rw [Opening.span_close]
  exact hspan

/-- A node that comes from a statement with its first token. -/
theorem Origin.arises {ts before us after : List Token} {first : Token} {n : Node}
    (h : n.Origin (first :: us) after) (hts : ts = before ++ first :: us ++ after)
    (hspan : n.span.first = first.span.first) : n.Arises ts :=
  ⟨before, first :: us, after, first, us ++ after, hts, rfl, hspan, h⟩

end Node

/-- An at-rule with the name and the parameters of its tokens, whatever ends it. The last blanks do not
belong to its statement. -/
theorem AtRule.arises {ts before us rest : List Token} {first : Token} (spaces : Text)
    (hk : first.kind = .atWord) (hus : ∀ t ∈ us, Draft.endsParams t = false)
    (hts : ts = before ++ first :: us ++ rest) {r : AtRule}
    (hname : r.name = (ofTokens spaces first us).name)
    (hafter : r.afterName = (ofTokens spaces first us).afterName)
    (hparams : r.params = (ofTokens spaces first us).params)
    (hspan : r.span.first = first.span.first) :
    (Node.atRule r).Arises ts ∧ ∀ ns, (Node.atBlock r ns).Arises ts := by
  obtain ⟨lead, body, trail, rfl, hlead, hbody, -, -⟩ := exists_parts spaces first us
  have hown : Node.HasParams r first (lead ++ body) :=
    ⟨hk, hname, by rw [hafter, hparams, hlead, hbody, Token.join_append],
      fun t ht => hus t (List.mem_append_left _ ht)⟩
  have hsplit : ts = before ++ first :: (lead ++ body) ++ (trail ++ rest) := by simpa using hts
  exact ⟨Node.Origin.arises (.atRule hown) hsplit hspan,
    fun ns => Node.Origin.arises (.atBlock hown) hsplit hspan⟩

/-! ## Drafts -/

namespace Draft

/-- The nodes of a draft in the order of the document, the open blocks as if they were closed. -/
def heads (d : Draft) : List Node :=
  d.collect (fun n => [n.1]) fun o => [o.close [] [] o.start]

/-- Every node and every open block has an origin among the tokens. -/
def Traced (ts : List Token) (d : Draft) : Prop := ∀ n ∈ d.heads, n.Arises ts

variable {ts before : List Token} {d d' : Draft}

theorem traced_start (ts : List Token) : Traced ts .start := by
  simp [Traced, heads, collect, collectFrames, start, Node.walkList]

theorem Traced.push (h : Traced ts d) {n : Node} (hleaf : n.children = []) (hn : n.Arises ts) :
    Traced ts (d.push n) := by
  intro m hm
  rw [heads, collect_push, Node.walk_eq, hleaf, Node.walkList] at hm
  rcases List.mem_append.1 hm with hm | hm
  · exact h m hm
  · obtain rfl : m = n := by simpa using hm
    exact hn

theorem Traced.enter (h : Traced ts d) {o : Opening} (ho : (o.close [] [] o.start).Arises ts) :
    Traced ts (d.enter o) := by
  intro m hm
  rw [heads, collect_enter] at hm
  rcases List.mem_append.1 hm with hm | hm
  · exact h m hm
  · obtain rfl := List.mem_singleton.1 hm
    exact ho

theorem Traced.close (h : Traced ts d) {t : Token} (hclose : d.close t = .ok d') :
    Traced ts d' := by
  obtain ⟨f, fs, outer, inner, -, hbefore, hafter⟩ := collect_close (fun n => [n.1])
    (fun o => [o.close [] [] o.start]) hclose
  intro m hm
  rw [Traced, heads, hbefore] at h
  rw [heads, hafter, List.mem_append, List.mem_append, List.mem_singleton] at hm
  rcases hm with (hm | rfl) | hm
  · exact h m (by simp [hm])
  · exact (h (f.opening.close [] [] f.opening.start) (by simp)).close _ _ _
  · exact h m (by simp [hm])

/-- A declaration or a call. -/
theorem Traced.simple (h : Traced ts d) {first : Token} {us after : List Token}
    {semicolon : Option Token} (hts : ts = before ++ first :: us ++ after)
    (hholds : Statement.Holds first us after)
    (hsimple : d.simple (Statement.extentOf first (us ++ after)).colon first us semicolon =
      .ok d') : Traced ts d' := by
  unfold Draft.simple at hsimple
  split at hsimple
  · next hcolon =>
    cases hsimple
    exact h.push rfl (Node.Origin.arises (.declaration hholds hcolon) hts rfl)
  split at hsimple
  · cases hsimple
    exact h.push rfl (Node.Origin.arises (.call hholds rfl) hts rfl)
  · cases hsimple

/-- **One step adds nodes with an origin**, if it adds any. -/
theorem Step.traced {taken rest : List Token} (h : Step d taken rest d')
    (hts : ts = before ++ (taken ++ rest)) (hd : Traced ts d) : Traced ts d' := by
  cases h with
  | blank kind => exact hd
  | close kind closes => exact hd.close closes
  | @comment t _ kind =>
    exact hd.push rfl ⟨before, [], t :: rest, t, rest, by simpa using hts, rfl, rfl, .comment⟩
  | @bare t _ kind =>
    exact hd.enter ⟨before, [], t :: rest, t, rest, by simpa using hts, rfl, rfl, .bare rfl⟩
  | @block first brace us _ colon begins extent kind =>
    obtain ⟨us, gap, hsplit, rfl, hgap⟩ :=
      exists_splitTrivia_cons (isTrivia_of_beginsStatement begins) us
    have hholds := Statement.holds_of_extentOf begins extent rfl (fun _ => by simp) hgap
    have hselector : join (splitTrivia (first :: (us ++ gap))).1 = join (first :: us) := by
      rw [hsplit]
    exact Traced.enter (d := { d with mixins := _ }) hd
      (Node.Origin.arises (.block hholds hselector) (by simpa using hts) rfl)
  | @ended first semicolon us _ colon _ begins extent kind simple =>
    have hholds : Statement.Holds first us ([] ++ semicolon :: rest) :=
      Statement.holds_of_extentOf (by simpa using begins) (by simpa using extent) (by simp)
        (fun _ => by simp) (by simp)
    have hsimple : d.simple (Statement.extentOf first (us ++ ([] ++ semicolon :: rest))).colon
        first us (some semicolon) = .ok d' := by
      rw [List.nil_append, extent]
      exact simple
    exact hd.simple (by simpa using hts) hholds hsimple
  | @unended first us _ e _ begins extent stop core simple =>
    subst extent
    have hholds := Statement.holds_of_core begins
      (fun paren hp => by rw [hp] at stop; simp at stop) core
    exact hd.simple (by simpa using hts) hholds simple
  | @atRuleAtEnd first us begins params =>
    have hsplit : ts = before ++ first :: us ++ [] := by simpa using hts
    refine hd.push rfl (And.left
      (AtRule.arises d.spaces begins.kind params hsplit ?_ ?_ ?_ ?_)) <;> rfl
  | @atRuleEnded first semicolon us _ begins params kind =>
    have hsplit : ts = before ++ first :: us ++ semicolon :: rest := by simpa using hts
    refine hd.push rfl (And.left
      (AtRule.arises d.spaces begins.kind params hsplit ?_ ?_ ?_ ?_)) <;> rfl
  | @atRuleOpened first brace us _ begins params kind =>
    have hsplit : ts = before ++ first :: us ++ brace :: rest := by simpa using hts
    refine hd.enter (And.right
      (AtRule.arises d.spaces begins.kind params hsplit ?_ ?_ ?_ ?_) []) <;> rfl
  | @atRuleClosed first brace us _ _ begins params kind closes =>
    have hsplit : ts = before ++ first :: us ++ brace :: rest := by simpa using hts
    have hpush := hd.push (n := .atRule (.ofTokens d.spaces first us)) rfl
      (AtRule.arises d.spaces begins.kind params hsplit rfl rfl rfl rfl).1
    exact hpush.close closes

/-- A run keeps the origins. -/
theorem Run.traced {us : List Token} (h : Run d us d') (hts : ts = before ++ us)
    (hd : Traced ts d) : Traced ts d' := by
  induction h generalizing before with
  | nil => exact hd
  | @cons d d₁ d₂ taken rest head tail ih =>
    have hrest : ts = before ++ taken ++ rest := by rw [hts, List.append_assoc]
    exact ih hrest (head.traced hts hd)

end Draft

/-! ## Sheets -/

/-- **Every node of a sheet has an origin** among its tokens. -/
theorem Sheet.exists_origin {ts : List Token} {sheet : Sheet} (h : ofTokens ts = .ok sheet) :
    ∀ n ∈ sheet.walk, n.1.Arises ts := by
  obtain ⟨d, hrun, hf, rfl⟩ := exists_run h
  have htraced := hrun.traced (List.nil_append ts).symm (Draft.traced_start ts)
  intro n hn
  refine htraced n.1 ?_
  rw [Draft.heads, Draft.collect_of_frames _ _ hf]
  exact List.mem_flatMap.2 ⟨n, hn, List.mem_singleton_self _⟩

namespace Node

/-- The tokens of an origin spell the statement. -/
theorem Origin.statement_eq {n : Node} {own after : List Token} (h : n.Origin own after)
    (ho : ∀ t ∈ own, t.kind.Outline t.text) : n.statement = join own := by
  have hheading : ∀ {r : AtRule} {first : Token} {us : List Token}, HasParams r first us →
      first.kind.Outline first.text →
      '@' :: r.name ++ r.afterName ++ r.params = join (first :: us) := by
    intro r first us hparams hout
    obtain ⟨name, hname⟩ := hout.of_eq hparams.kind
    rw [List.append_assoc, hparams.params, hparams.name, hname, Token.join_cons, hname]
    rfl
  cases h with
  | comment => rfl
  | bare selector => exact selector
  | block holds selector => exact selector
  | call holds selector => exact selector
  | @declaration before semicolon first us _ holds colon =>
    rw [← Declaration.head_append first us]
    simp [statement, Declaration.ofTokens]
  | atRule params => exact hheading params (ho _ List.mem_cons_self)
  | atBlock params => exact hheading params (ho _ List.mem_cons_self)

/-- **The tokens of a node** are those of its origin. -/
theorem Arises.exists_tokens {s : Text} {ts : List Token} {n : Node} (h : n.Arises ts)
    (hlex : Token.Lexed .start .start s ts) :
    ∃ before after, ts = before ++ n.tokens ts ++ after ∧ n.statement = join (n.tokens ts) ∧
      n.Origin (n.tokens ts) after := by
  obtain ⟨before, own, after, first, more, rfl, hfirst, hspan, horigin⟩ := h
  have hne := hlex.text_ne_nil
  have hinc := hlex.located.pairwise_first hne
  have hout : ∀ t ∈ own, t.kind.Outline t.text := fun t ht => hlex.outlined t (by simp [ht])
  have hstatement := horigin.statement_eq hout
  have htokens : n.tokens (before ++ own ++ after) = own := by
    rw [tokens, hstatement, hspan]
    rw [List.append_assoc, hfirst] at hinc hne ⊢
    exact Token.spelling_eq (hfirst ▸ List.prefix_append own after) hinc hne
  rw [htokens]
  exact ⟨before, after, rfl, hstatement, horigin⟩

end Node

end LessStyle
