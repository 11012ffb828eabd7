import LessStyle.Proofs.Sheet.Contents
import LessStyle.Proofs.Sheet.Definition

/-!
# Definitions and calls of mixins

A sheet keeps the text of its selectors, not their tokens. But positions lead back: the tokens of a
selector are those that spell its text from its start on (`Token.spelling`).

While a draft grows, its registry of mixins follows the blocks it has opened, finished or not. A block
that defines a mixin writes its parameters and its start under its name, so for every name the registry
has what the last block with that name wrote. A call is accepted only if its name is in the registry,
so some block before it defines that name. `Draft.Tracked` is this invariant; every step keeps it
(`Draft.Step.tracked`), and what is true of the last draft is true of the sheet.
-/

namespace LessStyle

open Token (join)

/-! ## Tokens of a text -/

namespace Token

/-- The first tokens, up to `n` characters. -/
def covering : Nat → List Token → List Token
  | 0, _ => []
  | _, [] => []
  | n + 1, t :: ts => t :: covering (n + 1 - t.text.length) ts

/-- The tokens that spell the text `s` from the position `p` on. -/
def spelling (ts : List Token) (p : Position) (s : Text) : List Token :=
  covering s.length (ts.dropWhile (·.span.first ≠ p))

theorem covering_zero (ts : List Token) : covering 0 ts = [] := by
  cases ts <;> rfl

theorem covering_append {ts : List Token} (hne : ∀ t ∈ ts, t.text ≠ []) (rest : List Token) :
    covering (join ts).length (ts ++ rest) = ts := by
  induction ts with
  | nil => exact covering_zero rest
  | cons t ts ih =>
    have hts := ih fun u hu => hne u (List.mem_cons_of_mem _ hu)
    have ht := List.length_pos_iff.2 (hne t List.mem_cons_self)
    obtain ⟨n, hn⟩ : ∃ n, (join (t :: ts)).length = n + 1 := by
      refine Nat.exists_eq_succ_of_ne_zero ?_
      rw [join_cons, List.length_append]
      omega
    have hrest : n + 1 - t.text.length = (join ts).length := by
      rw [← hn, join_cons, List.length_append, Nat.add_sub_cancel_left]
    rw [hn, List.cons_append, covering, hrest, hts]

/-- Tokens are found again by their text and the start of the first. -/
theorem spelling_eq {before more ts : List Token} {first : Token}
    (hfront : ts <+: first :: more)
    (hinc : (before ++ first :: more).Pairwise fun a b => a.span.first < b.span.first)
    (hne : ∀ t ∈ before ++ first :: more, t.text ≠ []) :
    spelling (before ++ first :: more) first.span.first (join ts) = ts := by
  have hbefore : ∀ t ∈ before, decide (t.span.first ≠ first.span.first) = true := by
    intro t ht
    have hlt := (List.pairwise_append.1 hinc).2.2 t ht first List.mem_cons_self
    simpa using hlt.ne
  obtain ⟨rest, hrest⟩ := hfront
  rw [spelling, List.dropWhile_append_of_pos hbefore, List.dropWhile_cons_of_neg (by simp),
    ← hrest, covering_append]
  intro t ht
  exact hne t (by rw [← hrest]; simp [ht])

end Token

/-! ## Blocks and calls of a draft -/

/-- The block as it was when it was opened. -/
def Block.opened (b : Block) : Block := { b with after := [], span.last := b.span.first }

namespace Draft

/-- The blocks that a draft has opened, in the order of the document. -/
def opened (d : Draft) : List Block :=
  d.collect
    (fun
      | (.block b _, _) => [b.opened]
      | _ => [])
    fun
      | .block b => [b.opened]
      | .atRule _ => []

/-- The calls that a draft has read, in the order of the document. -/
def calls (d : Draft) : List Call :=
  d.collect
    (fun
      | (.call c, _) => [c]
      | _ => [])
    fun _ => []

variable {d d' : Draft}

theorem opened_enter (b : Block) : (d.enter (.block b)).opened = d.opened ++ [b.opened] :=
  collect_enter _ _ _

theorem calls_enter (o : Opening) : (d.enter o).calls = d.calls := by
  rw [calls, collect_enter, List.append_nil]
  rfl

theorem opened_push_call (c : Call) : (d.push (.call c)).opened = d.opened := by
  simp [opened, collect_push, Node.walk]

theorem calls_push_call (c : Call) : (d.push (.call c)).calls = d.calls ++ [c] := by
  simp [calls, collect_push, Node.walk]

theorem opened_close {t : Token} (h : d.close t = .ok d') : d'.opened = d.opened :=
  collect_close_eq _ _ (fun o _ _ _ _ => by cases o <;> rfl) h

theorem calls_close {t : Token} (h : d.close t = .ok d') : d'.calls = d.calls :=
  collect_close_eq _ _ (fun o _ _ _ _ => by cases o <;> rfl) h

@[simp] theorem mixins_push (n : Node) : (d.push n).mixins = d.mixins := by
  unfold push
  split <;> rfl

theorem mixins_close {t : Token} (h : d.close t = .ok d') : d'.mixins = d.mixins := by
  obtain ⟨f, fs, hf, rfl⟩ := close_eq_ok h
  rw [mixins_push]

/-- The mixins, the blocks and the calls are the same. -/
structure Unchanged (d d' : Draft) : Prop where
  opened : d'.opened = d.opened
  calls : d'.calls = d.calls
  mixins : d'.mixins = d.mixins

theorem Unchanged.close {d₀ : Draft} (h : Unchanged d₀ d) {t : Token}
    (hclose : d.close t = .ok d') : Unchanged d₀ d' :=
  ⟨(opened_close hclose).trans h.opened, (calls_close hclose).trans h.calls,
    (mixins_close hclose).trans h.mixins⟩

/-- An at-rule, a declaration or a comment changes nothing. -/
theorem unchanged_push (d : Draft) {n : Node}
    (hn : (∃ r, n = .atRule r) ∨ (∃ x, n = .declaration x) ∨ ∃ c, n = .comment c) :
    Unchanged d (d.push n) := by
  rcases hn with ⟨_, rfl⟩ | ⟨_, rfl⟩ | ⟨_, rfl⟩ <;>
    exact ⟨by simp [opened, collect_push, Node.walk], by simp [calls, collect_push, Node.walk],
      mixins_push _⟩

/-- What a step means for the mixins: nothing, a block without a selector, a block with one, or a
call. -/
inductive Change (d : Draft) (taken rest : List Token) (d' : Draft) : Prop where
  | nothing (same : Unchanged d d')
  | bare {brace : Token} (mem : brace ∈ taken) (step : d' = d.enterBare brace)
  | block {first brace : Token} {ts : List Token} {colon : Bool}
      (taken_eq : taken = first :: (ts ++ [brace]))
      (extent : Statement.extentOf first (ts ++ brace :: rest) =
        ⟨ts.length + 1, .openBrace, colon⟩)
      (step : d' = d.enterBlock first ts)
  | call {first : Token} {ts us : List Token} {c : Call} (taken_eq : taken = first :: (ts ++ us))
      (selector : c.selector = join (first :: ts)) (start : c.span.first = first.span.first)
      (known : d.mixins.contains (Mixin.leadingName (first :: ts)) = true)
      (step : d' = d.push (.call c))

theorem change_simple {colon : Bool} {first : Token} {ts : List Token} {semicolon : Option Token}
    (h : d.simple colon first ts semicolon = .ok d') (us rest : List Token) :
    Change d (first :: (ts ++ us)) rest d' := by
  unfold simple at h
  split at h
  · cases h
    exact .nothing (unchanged_push d (.inr (.inl ⟨_, rfl⟩)))
  split at h
  · next hknown =>
    cases h
    exact .call rfl rfl rfl hknown rfl
  · cases h

/-- Every step means one of these. -/
theorem Step.change {taken rest : List Token} (h : Step d taken rest d') :
    Change d taken rest d' := by
  have hsame : Unchanged d d := ⟨rfl, rfl, rfl⟩
  cases h with
  | blank kind => exact .nothing ⟨rfl, rfl, rfl⟩
  | close kind closes => exact .nothing (hsame.close closes)
  | comment kind => exact .nothing (unchanged_push d (.inr (.inr ⟨_, rfl⟩)))
  | bare kind => exact .bare (by simp) rfl
  | block begins extent kind => exact .block rfl extent rfl
  | ended begins extent kind simple => exact change_simple simple _ rest
  | unended begins extent stop core simple =>
    have hchange := change_simple simple [] rest
    rwa [List.append_nil] at hchange
  | atRuleAtEnd begins params =>
    obtain ⟨hopened, hcalls, hmixins⟩ := unchanged_push d (.inl ⟨_, rfl⟩)
    exact .nothing ⟨hopened, hcalls, hmixins⟩
  | atRuleEnded begins params kind => exact .nothing (unchanged_push d (.inl ⟨_, rfl⟩))
  | atRuleOpened begins params kind =>
    exact .nothing ⟨by simp [opened, collect_enter], calls_enter _, rfl⟩
  | atRuleClosed begins params kind closes =>
    exact .nothing ((unchanged_push d (.inl ⟨_, rfl⟩)).close closes)

end Draft

/-! ## The registry -/

theorem Dict.mem_names_iff {α : Type} (d : Dict α) (name : Text) :
    name ∈ d.map Prod.fst ↔ (d.get? name).isSome = true := by
  induction d with
  | nil => simp [get?]
  | cons entry d ih =>
    obtain ⟨n, v⟩ := entry
    rw [List.map_cons, List.mem_cons, ih, get?, get?, List.lookup_cons]
    by_cases hn : name = n
    · simp [hn]
    · rw [beq_false_of_ne hn]
      simp [hn]

/-- The tokens of the selector of a block. -/
def Block.tokens (ts : List Token) (b : Block) : List Token :=
  Token.spelling ts b.span.first b.selector

/-- The name that the selector of a block begins with. -/
def Block.name (ts : List Token) (b : Block) : Text := Mixin.leadingName (b.tokens ts)

/-- The tokens of a call. -/
def Call.tokens (ts : List Token) (c : Call) : List Token :=
  Token.spelling ts c.span.first c.selector

/-- The name that a call begins with. -/
def Call.name (ts : List Token) (c : Call) : Text := Mixin.leadingName (c.tokens ts)

/-- The parameters and the start of the last block in a list that defines `name`. -/
def Mixin.latest (ts : List Token) (bs : List Block) (name : Text) : Option Mixin :=
  (bs.filter fun b => b.params.isSome && b.name ts == name).getLast?.map fun b =>
    ⟨b.params.getD [], b.span.first⟩

theorem Mixin.latest_concat (ts : List Token) (bs : List Block) (b : Block) (name : Text) :
    latest ts (bs ++ [b]) name =
      if b.params.isSome = true ∧ b.name ts = name then some ⟨b.params.getD [], b.span.first⟩
      else latest ts bs name := by
  rw [latest, List.filter_append]
  split
  · next h => simp [h.1, h.2]
  · next h =>
    have hb : (b.params.isSome && b.name ts == name) = false := by simpa using h
    simp [hb, latest]

theorem Mixin.isSome_latest (ts : List Token) (bs : List Block) (name : Text) :
    (latest ts bs name).isSome = true ↔
      ∃ b ∈ bs, b.params.isSome = true ∧ b.name ts = name := by
  simp [latest]

/-- What a block defines is there when it is opened. -/
theorem Mixin.latest_map_opened (ts : List Token) (bs : List Block) (name : Text) :
    latest ts (bs.map Block.opened) name = latest ts bs name := by
  rw [latest, List.filter_map, List.getLast?_map, Option.map_map]
  rfl

/-- The selector of a block is spelled by tokens of `ts`, and the block has parameters exactly if these
define a mixin: those between the parenthesis after the name and its closing one. -/
structure Block.Spelled (ts : List Token) (b : Block) : Prop where
  isInfix : b.tokens ts <:+: ts
  join_tokens : join (b.tokens ts) = b.selector
  isSome_params : b.params.isSome = true ↔ Mixin.Defines (b.tokens ts)
  exists_inner : ∀ ps, b.params = some ps →
    ∃ inner, Mixin.inParens? 0 (Mixin.afterName (b.tokens ts)).tail = some inner ∧
      ps = Mixin.paramList inner

/-- A block with the parameters that its tokens define. -/
theorem Block.spelled_of_tokens {ts selector : List Token} {b : Block}
    (htokens : b.tokens ts = selector) (hmem : selector <:+: ts)
    (hjoin : b.selector = join selector)
    (hparams : b.params = (Mixin.definition? selector).map Prod.snd)
    (hparens : Mixin.Defines selector →
      (Mixin.inParens? 0 (Mixin.afterName selector).tail).isSome = true) : b.Spelled ts := by
  subst htokens
  refine ⟨hmem, hjoin.symm, ⟨fun h => ?_, fun h => ?_⟩, fun ps h => ?_⟩
  · rw [hparams, Option.isSome_map] at h
    exact Mixin.defines_of_definition? h
  · rw [hparams, Mixin.definition?_of_defines h, Option.isSome_map, Option.isSome_map]
    exact hparens h
  · rw [hparams] at h
    obtain ⟨_, hdef, rfl⟩ := Option.map_eq_some_iff.1 h
    rw [Mixin.definition?_of_defines (Mixin.defines_of_definition? (by rw [hdef]; rfl))] at hdef
    obtain ⟨inner, hinner, rfl⟩ := Option.map_eq_some_iff.1 hdef
    exact ⟨inner, hinner, rfl⟩

namespace Draft

/-- After the tokens `before` of `ts`: every block that was opened is spelled by tokens of `ts` and
begins with one of those read, the registry has the last definition of every name, and every call has
an earlier definition of its name. -/
structure Tracked (ts before : List Token) (d : Draft) : Prop where
  blocks : ∀ b ∈ d.opened, b.Spelled ts ∧ ∃ t ∈ before, t.span.first = b.span.first
  registry : ∀ name, d.mixins.get? name = Mixin.latest ts d.opened name
  calls : ∀ c ∈ d.calls, c.tokens ts <:+: ts ∧ join (c.tokens ts) = c.selector ∧
    ∃ b ∈ d.opened, b.params.isSome = true ∧ b.name ts = c.name ts ∧ b.span.first < c.span.first

theorem tracked_start (ts : List Token) : Tracked ts [] .start where
  blocks := by simp [opened, collect, collectFrames, start, Node.walkList]
  registry := by
    simp [opened, collect, collectFrames, start, Node.walkList, Mixin.latest, Dict.get?]
  calls := by simp [calls, collect, collectFrames, start, Node.walkList]

variable {ts before : List Token} {d d' : Draft}

/-- One more block. -/
theorem Tracked.concat (h : Tracked ts before d) {more : List Token} {b : Block}
    (hopened : d'.opened = d.opened ++ [b]) (hcalls : d'.calls = d.calls) (hb : b.Spelled ts)
    (hstart : ∃ t ∈ more, t.span.first = b.span.first)
    (hmixins : ∀ name, d'.mixins.get? name =
      if b.params.isSome = true ∧ b.name ts = name then some ⟨b.params.getD [], b.span.first⟩
      else d.mixins.get? name) :
    Tracked ts (before ++ more) d' where
  blocks := by
    rw [hopened]
    intro b' hb'
    rcases List.mem_append.1 hb' with hb' | hb'
    · obtain ⟨hspelled, t, ht, hp⟩ := h.blocks b' hb'
      exact ⟨hspelled, t, List.mem_append_left _ ht, hp⟩
    · obtain rfl := List.mem_singleton.1 hb'
      obtain ⟨t, ht, hp⟩ := hstart
      exact ⟨hb, t, List.mem_append_right _ ht, hp⟩
  registry := by
    intro name
    rw [hopened, Mixin.latest_concat, hmixins, h.registry]
  calls := by
    rw [hcalls, hopened]
    intro c hc
    obtain ⟨hmem, hjoin, b', hb', hname⟩ := h.calls c hc
    exact ⟨hmem, hjoin, b', List.mem_append_left _ hb', hname⟩

/-- The block that a brace without a selector opens. -/
theorem Tracked.enterBare (h : Tracked ts before d) {taken : List Token} {brace : Token}
    (hmem : brace ∈ taken) : Tracked ts (before ++ taken) (d.enterBare brace) := by
  have htokens : Token.spelling ts brace.span.first [] = [] := Token.covering_zero _
  refine h.concat (opened_enter _) (calls_enter _) ⟨?_, ?_, ?_, ?_⟩ ⟨brace, hmem, rfl⟩ ?_
  · simp [Block.tokens, Block.opened, htokens]
  · simp [Block.tokens, Block.opened, htokens]
  · simp [Block.tokens, Block.opened, htokens, Mixin.Defines, Mixin.afterName]
  · simp [Block.opened]
  · simp [Block.opened, Draft.enterBare, Draft.enter]

/-- A selector opens a block with its text and the parameters it defines, and writes these into the
registry. -/
theorem exists_enterBlock (d : Draft) (first : Token) (us : List Token) :
    ∃ b, (d.enterBlock first us).opened = d.opened ++ [b] ∧
      b.selector = join (splitTrivia (first :: us)).1 ∧
      b.params = (Mixin.definition? (splitTrivia (first :: us)).1).map Prod.snd ∧
      b.span.first = first.span.first ∧
      (d.enterBlock first us).mixins =
        match Mixin.definition? (splitTrivia (first :: us)).1 with
        | some (name, params) => d.mixins.insert name ⟨params, first.span.first⟩
        | none => d.mixins :=
  ⟨_, opened_enter _, rfl, rfl, rfl, rfl⟩

/-- The block that a selector opens. -/
theorem Tracked.enterBlock (h : Tracked ts before d) {first brace : Token}
    {us rest : List Token} {colon : Bool} (hts : ts = before ++ first :: (us ++ brace :: rest))
    (hinc : ts.Pairwise fun a b => a.span.first < b.span.first) (hne : ∀ t ∈ ts, t.text ≠ [])
    (hextent : Statement.extentOf first (us ++ brace :: rest) =
      ⟨us.length + 1, .openBrace, colon⟩) :
    Tracked ts (before ++ first :: (us ++ [brace])) (d.enterBlock first us) := by
  have hfront : (splitTrivia (first :: us)).1 <+: first :: (us ++ brace :: rest) :=
    (splitTrivia_isPrefix _).trans (by simp)
  have hparens := Mixin.isSome_inParens?_selector hextent
  obtain ⟨b, hopened, hselector, hparams, hfirst, hmixins⟩ := exists_enterBlock d first us
  generalize (splitTrivia (first :: us)).1 = selector at *
  have htokens : b.tokens ts = selector := by
    subst hts
    rw [Block.tokens, hfirst, hselector]
    exact Token.spelling_eq hfront hinc hne
  have hmem : selector <:+: ts := by
    subst hts
    exact hfront.isInfix.trans (List.suffix_append _ _).isInfix
  refine h.concat hopened (calls_enter _)
    (Block.spelled_of_tokens htokens hmem hselector hparams hparens)
    ⟨first, List.mem_cons_self, hfirst.symm⟩ fun name => ?_
  rw [hmixins, hparams, Block.name, htokens, hfirst]
  cases hdef : Mixin.definition? selector with
  | none => simp
  | some found =>
    obtain ⟨name', params⟩ := found
    have hdefines := Mixin.defines_of_definition? (by rw [hdef]; rfl)
    obtain rfl := Mixin.eq_leadingName_of_definition? hdef hdefines
    by_cases hname : Mixin.leadingName selector = name
    · simp [hname]
    · simp [hname, Dict.get?_insert_of_ne _ _ (Ne.symm hname)]

/-- A call. -/
theorem Tracked.call (h : Tracked ts before d) {first : Token} {us vs rest : List Token} {c : Call}
    (hts : ts = before ++ first :: (us ++ vs ++ rest))
    (hinc : ts.Pairwise fun a b => a.span.first < b.span.first) (hne : ∀ t ∈ ts, t.text ≠ [])
    (hselector : c.selector = join (first :: us)) (hstart : c.span.first = first.span.first)
    (hknown : d.mixins.contains (Mixin.leadingName (first :: us)) = true) :
    Tracked ts (before ++ first :: (us ++ vs)) (d.push (.call c)) := by
  have htokens : c.tokens ts = first :: us := by
    subst hts
    rw [Call.tokens, hselector, hstart]
    exact Token.spelling_eq ⟨vs ++ rest, by simp⟩ hinc hne
  have hlater : ∀ t ∈ before, t.span.first < first.span.first := by
    subst hts
    exact fun t ht => (List.pairwise_append.1 hinc).2.2 t ht first List.mem_cons_self
  refine ⟨?_, ?_, ?_⟩
  · rw [opened_push_call]
    intro b hb
    obtain ⟨hspelled, t, ht, hp⟩ := h.blocks b hb
    exact ⟨hspelled, t, List.mem_append_left _ ht, hp⟩
  · rw [opened_push_call, mixins_push]
    exact h.registry
  · rw [opened_push_call, calls_push_call]
    intro c' hc'
    rcases List.mem_append.1 hc' with hc' | hc'
    · exact h.calls c' hc'
    obtain rfl := List.mem_singleton.1 hc'
    rw [Dict.contains, h.registry, Mixin.isSome_latest] at hknown
    obtain ⟨b, hb, hparams, hname⟩ := hknown
    obtain ⟨-, t, ht, hp⟩ := h.blocks b hb
    refine ⟨?_, by rw [htokens, hselector], b, hb, hparams, by rw [hname, Call.name, htokens], ?_⟩
    · rw [htokens, hts]
      exact ⟨before, vs ++ rest, by simp⟩
    · rw [hstart, ← hp]
      exact hlater t ht

/-- **One step keeps track** of blocks, registry and calls. -/
theorem Step.tracked {taken rest : List Token} (h : Step d taken rest d')
    (hts : ts = before ++ (taken ++ rest))
    (hinc : ts.Pairwise fun a b => a.span.first < b.span.first) (hne : ∀ t ∈ ts, t.text ≠ [])
    (hd : Tracked ts before d) : Tracked ts (before ++ taken) d' := by
  cases h.change with
  | nothing same =>
    refine ⟨?_, ?_, ?_⟩
    · rw [same.opened]
      intro b hb
      obtain ⟨hspelled, t, ht, hp⟩ := hd.blocks b hb
      exact ⟨hspelled, t, List.mem_append_left _ ht, hp⟩
    · rw [same.opened, same.mixins]
      exact hd.registry
    · rw [same.opened, same.calls]
      exact hd.calls
  | bare mem step =>
    rw [step]
    exact hd.enterBare mem
  | block taken_eq extent step =>
    subst taken_eq
    rw [step]
    exact hd.enterBlock (by simpa using hts) hinc hne extent
  | call taken_eq selector start known step =>
    subst taken_eq
    rw [step]
    exact hd.call (by simpa using hts) hinc hne selector start known

/-- A reading keeps track. -/
theorem Reads.tracked {taken rest : List Token} (h : Reads d taken rest d')
    (hts : ts = before ++ (taken ++ rest))
    (hinc : ts.Pairwise fun a b => a.span.first < b.span.first) (hne : ∀ t ∈ ts, t.text ≠ [])
    (hd : Tracked ts before d) : Tracked ts (before ++ taken) d' := by
  induction h generalizing before with
  | nil => simpa using hd
  | cons head tail ih =>
    rw [List.append_assoc] at hts
    have hhead := head.tracked hts hinc hne hd
    rw [← List.append_assoc]
    exact ih (by rw [hts, List.append_assoc]) hhead

/-- A draft that has read the first tokens of a text is tracked. -/
theorem Reads.tracked_of_lexed {s : Text} {taken rest : List Token} (h : Reads .start taken rest d)
    (hlex : Token.Lexed .start .start s (taken ++ rest)) : Tracked (taken ++ rest) taken d := by
  have hinc := hlex.located.pairwise_first hlex.text_ne_nil
  have htracked := h.tracked (List.nil_append _).symm hinc hlex.text_ne_nil (tracked_start _)
  rwa [List.nil_append] at htracked

end Draft

/-! ## Sheets -/

namespace Sheet

/-- The blocks of a finished draft have been opened one after another. -/
theorem map_opened_blocks {d : Draft} (h : d.frames = []) :
    (Sheet.blocks ⟨d.roots.reverse, d.spaces, d.mixins⟩).map Block.opened = d.opened := by
  rw [Draft.opened, Draft.collect_of_frames _ _ h, blocks, List.map_filterMap,
    List.filterMap_eq_flatMap_toList]
  congr 1
  funext n
  rcases n with ⟨_ | _ | _ | _ | _ | _, _⟩ <;> rfl

theorem mem_calls {d : Draft} (h : d.frames = []) {c : Call} {depth : Nat}
    (hc : (.call c, depth) ∈ Sheet.walk ⟨d.roots.reverse, d.spaces, d.mixins⟩) : c ∈ d.calls := by
  rw [Draft.calls, Draft.collect_of_frames _ _ h]
  exact List.mem_flatMap.2 ⟨_, hc, List.mem_singleton_self c⟩

/-- A finished sheet is tracked: its blocks stand for those of the draft. -/
theorem exists_tracked {s : Text} {ts : List Token} {sheet : Sheet}
    (hlex : Token.Lexed .start .start s ts) (hsheet : ofTokens ts = .ok sheet) :
    ∃ d, Draft.Tracked ts ts d ∧ d.mixins = sheet.mixins ∧
      d.opened = sheet.blocks.map Block.opened ∧
      ∀ c depth, (.call c, depth) ∈ sheet.walk → c ∈ d.calls := by
  obtain ⟨d, hrun, hf, rfl⟩ := exists_run hsheet
  have htracked := (Draft.reads_nil_iff.2 hrun).tracked_of_lexed (by simpa using hlex)
  rw [List.append_nil] at htracked
  exact ⟨d, htracked, rfl, (map_opened_blocks hf).symm, fun c depth => mem_calls hf⟩

/-- **Definitions and calls of mixins agree.** In a sheet the selector of every block, and every call,
is spelled by tokens, and a block defines a mixin exactly if those of its selector begin with the name
of a class or an id and a parenthesis. The registry has the names of these blocks and no others, each
with the parameters and the start of the last such block. A call has the name of one that starts before
it. If a word is unknown instead, no block that was opened before its statement defines the name that
the statement begins with. -/
theorem mixins_of_tokenize {s : Text} {ts : List Token} (hts : Token.tokenize s = .ok ts) :
    (∀ sheet, ofTokens ts = .ok sheet →
      (∀ b ∈ sheet.blocks, b.Spelled ts) ∧
      (∀ name, name ∈ sheet.mixins.map Prod.fst ↔
        ∃ b ∈ sheet.blocks, b.params.isSome = true ∧ b.name ts = name) ∧
      (∀ name, sheet.mixins.get? name = Mixin.latest ts sheet.blocks name) ∧
      ∀ c depth, (.call c, depth) ∈ sheet.walk →
        c.tokens ts <:+: ts ∧ join (c.tokens ts) = c.selector ∧
          ∃ b ∈ sheet.blocks, b.params.isSome = true ∧ b.name ts = c.name ts ∧
            b.span.first < c.span.first) ∧
    ∀ word p, ofTokens ts = .error ⟨.unknownWord word, p⟩ →
      ∃ before first rest d, ts = before ++ first :: rest ∧ first.text = word ∧
        first.span.first = p ∧ Draft.Reads .start before (first :: rest) d ∧
        ∀ b ∈ d.opened, b.params.isSome = true →
          b.name ts ≠ Mixin.leadingName (first :: rest) := by
  have hlex := Token.lexed_of_tokensFrom hts
  refine ⟨fun sheet hsheet => ?_, fun word p herror => ?_⟩
  · obtain ⟨d, htracked, hmixins, hopened, hcalls⟩ := exists_tracked hlex hsheet
    have hget : ∀ name, sheet.mixins.get? name = Mixin.latest ts sheet.blocks name := by
      intro name
      rw [← hmixins, htracked.registry, hopened, Mixin.latest_map_opened]
    refine ⟨fun b hb => ?_, fun name => ?_, hget, fun c depth hc => ?_⟩
    · have hmem : b.opened ∈ d.opened := hopened ▸ List.mem_map_of_mem hb
      -- closing a block changes neither its selector nor its start
      obtain ⟨h₁, h₂, h₃, h₄⟩ := (htracked.blocks _ hmem).1
      exact ⟨h₁, h₂, h₃, h₄⟩
    · rw [← Mixin.isSome_latest, ← hget, Dict.mem_names_iff]
    · obtain ⟨hmem, hjoin, b', hb', hname⟩ := htracked.calls c (hcalls c depth hc)
      rw [hopened] at hb'
      obtain ⟨b, hb, rfl⟩ := List.mem_map.1 hb'
      exact ⟨hmem, hjoin, b, hb, hname⟩
  · unfold ofTokens at herror
    split at herror
    · next e hread =>
      obtain rfl := Except.error.inj herror
      obtain ⟨before, first, rest, d, rfl, hreads, hfails⟩ := Draft.exists_fails hread
      cases hfails with
      | unknown begins colon name =>
        -- the registry at this statement has every name that was defined before it
        refine ⟨before, first, rest, d, rfl, rfl, rfl, hreads, fun b hb hparams hname => ?_⟩
        have hsome := (Mixin.isSome_latest _ _ _).2 ⟨b, hb, hparams, hname⟩
        rw [← (hreads.tracked_of_lexed hlex).registry, ← Dict.contains, name] at hsome
        cases hsome
    · next d hread =>
      unfold Draft.finish at herror
      split at herror <;> cases herror

theorem mixins_of_tokenize_samples :
    (∃ ts sheet b, Token.tokenize sampleSource = .ok ts ∧ ofTokens ts = .ok sheet ∧
      b ∈ sheet.blocks ∧ b.params.isSome = true ∧ b.name ts = ['.', 'm'] ∧ b.Spelled ts) ∧
    ∃ ts before first rest d,
      Token.tokenize ['.', 'm', '(', ')', '{', '}', '.', 'a', ';'] = .ok ts ∧
      ofTokens ts = .error ⟨.unknownWord ['.', 'a'], ⟨1, 7⟩⟩ ∧ ts = before ++ first :: rest ∧
      first.text = ['.', 'a'] ∧ Draft.Reads .start before (first :: rest) d ∧
      ∀ b ∈ d.opened, b.params.isSome = true → b.name ts ≠ Mixin.leadingName (first :: rest) := by
  constructor
  · obtain ⟨ts, sheet, hts, hsheet, hmixins⟩ := exists_of_eval (s := sampleSource)
      (f := fun _ sheet => sheet.mixins.map Prod.fst) (a := [['.', 'm']]) (by decide +kernel)
    obtain ⟨hspelled, hnames, -, -⟩ := (mixins_of_tokenize hts).1 sheet hsheet
    have hname : ['.', 'm'] ∈ sheet.mixins.map Prod.fst := hmixins ▸ List.mem_singleton_self _
    obtain ⟨b, hb, hparams, hb'⟩ := (hnames _).1 hname
    exact ⟨ts, sheet, b, hts, hsheet, hb, hparams, hb', hspelled b hb⟩
  · obtain ⟨ts, hts, herror⟩ := exists_of_parse_eq_error
      (e := ⟨.unknownWord ['.', 'a'], ⟨1, 7⟩⟩)
      (s := ['.', 'm', '(', ')', '{', '}', '.', 'a', ';']) (by decide +kernel) (by decide +kernel)
    obtain ⟨before, first, rest, d, heq, htext, -, hreads, hb⟩ :=
      (mixins_of_tokenize hts).2 _ _ herror
    exact ⟨ts, before, first, rest, d, hts, herror, heq, htext, hreads, hb⟩

end Sheet

end LessStyle
