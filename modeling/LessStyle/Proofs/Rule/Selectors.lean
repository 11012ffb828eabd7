import LessStyle.Proofs.Rule.Alias
import LessStyle.Proofs.Sheet.Lines
import Mathlib.Data.List.Forall2

/-!
# Selectors on lines of their own

A comma between two selectors should end its line. Which commas stand between selectors depends on the
text before them: a comma in quotes or brackets does not, nor does an escaped one (`Separates`). The
search of the rule counts open brackets of both kinds together and knows no escapes (`Counts`), and it
finds the first comma that is inline by its own count (`inlineComma?_eq_some_iff`).

The two agree on a selector without backslashes whose brackets are nested (`counts_iff`). A record
shows only the line of a comma, so the records on a file are right by both exactly if the first commas
of each block are on the same line (`reportsCommas_iff`).
-/

namespace LessStyle.Rule

open Text

/-! ## Commas -/

/-- Only blanks stand before the next line break. -/
def BreakFollows (s : Text) : Prop :=
  ∃ gap rest, s = gap ++ '\n' :: rest ∧ ∀ c ∈ gap, c ∈ [' ', '\t', '\r', '\x0c']

theorem isBeforeBreak_iff (s : Text) : isBeforeBreak s = true ↔ BreakFollows s := by
  have hblank : ∀ c : Char, (c == ' ' || c == '\t' || c == '\r' || c == '\x0c') = true ↔
      c ∈ [' ', '\t', '\r', '\x0c'] := by
    intro c
    simp [or_assoc]
  unfold isBeforeBreak
  constructor
  · intro h
    have hsplit := List.takeWhile_append_dropWhile
      (p := fun c => c == ' ' || c == '\t' || c == '\r' || c == '\x0c') (l := s)
    split at h
    · next c rest hdrop =>
      rw [hdrop, beq_iff_eq.1 h] at hsplit
      have hgap := List.all_takeWhile
        (p := fun c => c == ' ' || c == '\t' || c == '\r' || c == '\x0c') (l := s)
      exact ⟨_, rest, hsplit.symm, fun c hc => (hblank c).1 (List.all_eq_true.1 hgap c hc)⟩
    · cases h
  · rintro ⟨gap, rest, rfl, hgap⟩
    rw [List.dropWhile_append_of_pos fun c hc => (hblank c).2 (hgap c hc),
      List.dropWhile_cons_of_neg (by decide)]
    rfl

/-- A comma of a selector that no line break follows, with the text on both sides of it. What stands
before a comma between selectors satisfies `top`. -/
structure InlineComma (top : Text → Prop) (selector front rest : Text) : Prop where
  eq : selector = front ++ ',' :: rest
  top : top front
  inline : ¬ BreakFollows rest

/-- The first such comma. -/
structure FirstInline (top : Text → Prop) (selector front rest : Text) : Prop where
  comma : InlineComma top selector front rest
  first : ∀ front' rest', InlineComma top selector front' rest' → front.length ≤ front'.length

theorem InlineComma.exists_first {top : Text → Prop} {selector front rest : Text}
    (h : InlineComma top selector front rest) : ∃ a b, FirstInline top selector a b := by
  induction hlen : front.length using Nat.strongRecOn generalizing front rest with
  | ind len ih =>
  by_cases hfirst : ∀ a b, InlineComma top selector a b → front.length ≤ a.length
  · exact ⟨front, rest, h, hfirst⟩
  · simp only [not_forall, not_le] at hfirst
    obtain ⟨a, b, hab, hlt⟩ := hfirst
    exact ih a.length (hlen ▸ hlt) hab rfl

theorem FirstInline.front_unique {top : Text → Prop} {selector front rest front' rest' : Text}
    (h : FirstInline top selector front rest) (h' : FirstInline top selector front' rest') :
    front = front' :=
  List.append_inj_left (h.comma.eq.symm.trans h'.comma.eq)
    (Nat.le_antisymm (h.first _ _ h'.comma) (h'.first _ _ h.comma))

/-! ## Counting brackets -/

/-- The number of open brackets and the open quote, where a backslash counts for nothing. -/
structure Count where
  depth : Nat
  quote : Option Char

namespace Count

/-- At the start of a selector. -/
def start : Count := ⟨0, none⟩

/-- After the character `c`. A closing bracket closes one of either kind, and one too many is not
counted. -/
def step (n : Count) (c : Char) : Count :=
  match n.quote with
  | some q => if c == q then { n with quote := none } else n
  | none =>
    if c == '"' || c == '\'' then { n with quote := some c }
    else if c == '(' || c == '[' then { n with depth := n.depth + 1 }
    else if c == ')' || c == ']' then { n with depth := n.depth - 1 }
    else n

/-- No bracket and no quote is open. -/
def IsTop (n : Count) : Prop := n.depth = 0 ∧ n.quote = none

end Count

/-- By the count, a comma behind this text is outside brackets and quotes. -/
def Counts (front : Text) : Prop := (front.foldl Count.step .start).IsTop

/-- The comma is here. -/
theorem inlineCommaFrom?_of_inline {n : Count} {s : Text} (h : n.IsTop) (hs : ¬ BreakFollows s) :
    inlineCommaFrom? n.depth n.quote (',' :: s) = some 0 := by
  have hbreak : isBeforeBreak s = false := by
    rwa [← Bool.not_eq_true, isBeforeBreak_iff]
  rw [h.1, h.2]
  simp [inlineCommaFrom?, hbreak]

/-- The comma is not here, and the search goes on from the next count. -/
theorem inlineCommaFrom?_step {n : Count} {c : Char} {s : Text}
    (h : ¬ (n.IsTop ∧ c = ',' ∧ ¬ BreakFollows s)) :
    inlineCommaFrom? n.depth n.quote (c :: s) =
      (inlineCommaFrom? (n.step c).depth (n.step c).quote s).map (· + 1) := by
  obtain ⟨depth, quote⟩ := n
  cases quote with
  | some q =>
    simp only [inlineCommaFrom?, Count.step]
    split <;> rfl
  | none =>
    have hcomma : (c == ',' && depth == 0 && !isBeforeBreak s) = false := by
      rw [Bool.eq_false_iff]
      intro htrue
      simp only [Bool.and_eq_true, beq_iff_eq, Bool.not_eq_true', ← Bool.not_eq_true,
        isBeforeBreak_iff] at htrue
      exact h ⟨⟨htrue.1.2, rfl⟩, htrue.1.1, htrue.2⟩
    simp only [inlineCommaFrom?, Count.step, hcomma]
    split
    · rfl
    · split
      · rfl
      · split <;> rfl

/-- An inline comma is the first character of a selector or one behind it. -/
theorem inlineComma_cons {top : Text → Prop} {c : Char} {s front rest : Text} :
    InlineComma top (c :: s) front rest ↔
      (front = [] ∧ rest = s ∧ top [] ∧ c = ',' ∧ ¬ BreakFollows s) ∨
        ∃ front', front = c :: front' ∧ InlineComma (fun t => top (c :: t)) s front' rest := by
  constructor
  · rintro ⟨heq, htop, hinline⟩
    cases front with
    | nil =>
      obtain ⟨rfl, rfl⟩ := List.cons.inj heq
      exact .inl ⟨rfl, rfl, htop, rfl, hinline⟩
    | cons d front =>
      obtain ⟨rfl, rfl⟩ := List.cons.inj heq
      exact .inr ⟨front, rfl, rfl, htop, hinline⟩
  · rintro (⟨rfl, rfl, htop, rfl, hinline⟩ | ⟨front', rfl, rfl, htop, hinline⟩)
    · exact ⟨rfl, htop, hinline⟩
    · exact ⟨rfl, htop, hinline⟩

theorem firstInline_here {top : Text → Prop} {s : Text} (htop : top []) (hs : ¬ BreakFollows s)
    {front : Text} : (∃ rest, FirstInline top (',' :: s) front rest) ↔ front = [] := by
  have hhere : InlineComma top (',' :: s) [] s := ⟨rfl, htop, hs⟩
  constructor
  · rintro ⟨rest, h⟩
    exact List.length_eq_zero_iff.1 (Nat.le_zero.1 (h.first _ _ hhere))
  · rintro rfl
    exact ⟨s, hhere, fun _ _ _ => Nat.zero_le _⟩

theorem firstInline_cons {top : Text → Prop} {c : Char} {s : Text}
    (h : ¬ (top [] ∧ c = ',' ∧ ¬ BreakFollows s)) {front : Text} :
    (∃ rest, FirstInline top (c :: s) front rest) ↔
      ∃ front', c :: front' = front ∧ ∃ rest, FirstInline (fun t => top (c :: t)) s front' rest := by
  have hcons : ∀ front rest, InlineComma top (c :: s) front rest ↔
      ∃ front', front = c :: front' ∧ InlineComma (fun t => top (c :: t)) s front' rest := by
    intro front rest
    rw [inlineComma_cons]
    exact or_iff_right fun hhere => h hhere.2.2
  constructor
  · rintro ⟨rest, hcomma, hfirst⟩
    obtain ⟨front', rfl, hcomma'⟩ := (hcons _ _).1 hcomma
    refine ⟨front', rfl, rest, hcomma', fun a b hab => ?_⟩
    simpa using hfirst (c :: a) b ((hcons _ _).2 ⟨a, rfl, hab⟩)
  · rintro ⟨front', rfl, rest, hcomma, hfirst⟩
    refine ⟨rest, (hcons _ _).2 ⟨front', rfl, hcomma⟩, fun a b hab => ?_⟩
    obtain ⟨a', rfl, hab'⟩ := (hcons _ _).1 hab
    simpa using hfirst a' b hab'

theorem inlineCommaFrom?_eq_some_iff (n : Count) (s front : Text) :
    (inlineCommaFrom? n.depth n.quote s).map s.take = some front ↔
      ∃ rest, FirstInline (fun t => (t.foldl Count.step n).IsTop) s front rest := by
  induction s generalizing n front with
  | nil =>
    refine iff_of_false nofun ?_
    rintro ⟨rest, hcomma, -⟩
    simpa using hcomma.eq
  | cons c s ih =>
    by_cases hhere : n.IsTop ∧ c = ',' ∧ ¬ BreakFollows s
    · obtain ⟨htop, rfl, hs⟩ := hhere
      rw [inlineCommaFrom?_of_inline htop hs, firstInline_here htop hs]
      simp [eq_comm]
    · have hmap : ((inlineCommaFrom? (n.step c).depth (n.step c).quote s).map (· + 1)).map
          (c :: s).take =
          ((inlineCommaFrom? (n.step c).depth (n.step c).quote s).map s.take).map (c :: ·) := by
        rw [Option.map_map, Option.map_map]
        rfl
      rw [inlineCommaFrom?_step hhere, hmap, Option.map_eq_some_iff, firstInline_cons hhere]
      refine exists_congr fun front' => ?_
      rw [ih, and_comm]
      rfl

/-- **The comma that is found** is the first one that is inline by the count. -/
theorem inlineComma?_eq_some_iff (selector front : Text) :
    inlineComma? selector = some front ↔ ∃ rest, FirstInline Counts selector front rest :=
  inlineCommaFrom?_eq_some_iff .start selector front

theorem isSome_inlineComma?_iff (selector : Text) :
    (inlineComma? selector).isSome = true ↔ ∃ front rest, InlineComma Counts selector front rest := by
  rw [Option.isSome_iff_exists]
  simp only [inlineComma?_eq_some_iff]
  exact ⟨fun ⟨front, rest, h⟩ => ⟨front, rest, h.comma⟩, fun ⟨_, _, h⟩ => h.exists_first⟩

/-! ## Reading brackets, quotes and escapes -/

/-- The bracket that a closing bracket closes. -/
def opener? : Char → Option Char
  | ')' => some '('
  | ']' => some '['
  | _ => none

/-- The open brackets, the last one first, the open quote, and whether the next character is escaped. -/
structure Reading where
  opened : List Char
  quote : Option Char
  escaped : Bool
  deriving DecidableEq

namespace Reading

/-- At the start of a selector. -/
def start : Reading := ⟨[], none, false⟩

/-- After a character that is not escaped and no backslash. A bracket is closed by its own partner
only. -/
def plain (r : Reading) (c : Char) : Reading :=
  match r.quote with
  | some q => if c = q then { r with quote := none } else r
  | none =>
    if c = '"' ∨ c = '\'' then { r with quote := some c }
    else if c = '(' ∨ c = '[' then { r with opened := c :: r.opened }
    else if (opener? c).isSome ∧ r.opened.head? = opener? c then { r with opened := r.opened.tail }
    else r

/-- After the character `c`, in strings and outside. -/
def step (r : Reading) (c : Char) : Reading :=
  if r.escaped then { r with escaped := false }
  else if c = '\\' then { r with escaped := true }
  else r.plain c

/-- A closing bracket meets an open one of the other kind. -/
structure Crosses (r : Reading) (c : Char) : Prop where
  unquoted : r.quote = none
  closing : (opener? c).isSome
  other : r.opened ≠ [] ∧ r.opened.head? ≠ opener? c

end Reading

/-- A comma behind this text separates two selectors: it is not escaped, and outside strings and
brackets. -/
def Separates (front : Text) : Prop := front.foldl Reading.step .start = .start

instance (front : Text) : Decidable (Separates front) :=
  inferInstanceAs (Decidable (_ = _))

/-- No bracket is closed before one that was opened after it. -/
def Nested (selector : Text) : Prop :=
  ∀ front c, front ++ [c] <+: selector → ¬ (front.foldl Reading.step .start).Crosses c

/-- Counting and reading have come to the same. -/
structure Count.Agrees (n : Count) (r : Reading) : Prop where
  depth : n.depth = r.opened.length
  quote : n.quote = r.quote
  unescaped : r.escaped = false

theorem Count.Agrees.isTop_iff {n : Count} {r : Reading} (h : n.Agrees r) :
    n.IsTop ↔ r = .start := by
  obtain ⟨opened, quote, escaped⟩ := r
  simp only [Count.IsTop, h.depth, h.quote, show escaped = false from h.unescaped, Reading.start,
    Reading.mk.injEq, List.length_eq_zero_iff, and_true]

theorem opener?_isSome_iff (c : Char) : (opener? c).isSome = true ↔ c = ')' ∨ c = ']' := by
  unfold opener?
  split <;> simp_all

/-- One character without a backslash, and without a bracket that crosses another. -/
theorem Count.Agrees.step {n : Count} {r : Reading} (h : n.Agrees r) {c : Char} (hc : c ≠ '\\')
    (hfits : ¬ r.Crosses c) : (n.step c).Agrees (r.step c) := by
  have hstep : r.step c = r.plain c := by
    simp [Reading.step, h.unescaped, hc]
  rw [hstep]
  obtain ⟨depth, quote⟩ := n
  obtain ⟨opened, quote', escaped⟩ := r
  obtain ⟨hdepth, hquote, rfl⟩ := h
  dsimp only at hdepth hquote
  subst hdepth hquote
  cases quote with
  | some q =>
    by_cases hq : c = q
    · simp only [Count.step, Reading.plain, hq, beq_self_eq_true, if_true]
      exact ⟨rfl, rfl, rfl⟩
    · simp only [Count.step, Reading.plain, beq_eq_false_iff_ne.2 hq, hq, if_false]
      exact ⟨rfl, rfl, rfl⟩
  | none =>
    simp only [Count.step, Reading.plain, Bool.or_eq_true, beq_iff_eq]
    split
    · exact ⟨rfl, rfl, rfl⟩
    · split
      · exact ⟨rfl, rfl, rfl⟩
      · split
        · next hclose =>
          have hsome := (opener?_isSome_iff c).2 hclose
          cases opened with
          | nil =>
            rw [if_neg fun h => by simp [← h.2] at hsome]
            exact ⟨rfl, rfl, rfl⟩
          | cons o opened =>
            have hown : (o :: opened).head? = opener? c := by
              by_contra hother
              exact hfits ⟨rfl, hsome, List.cons_ne_nil _ _, hother⟩
            rw [if_pos ⟨hsome, hown⟩]
            exact ⟨rfl, rfl, rfl⟩
        · next hclose =>
          rw [if_neg fun h => hclose ((opener?_isSome_iff c).1 h.1)]
          exact ⟨rfl, rfl, rfl⟩

theorem agrees_of_nested {selector : Text} (hescape : '\\' ∉ selector) (hnested : Nested selector)
    {front : Text} (h : front <+: selector) :
    (front.foldl Count.step .start).Agrees (front.foldl Reading.step .start) := by
  induction front using List.reverseRecOn with
  | nil => exact ⟨rfl, rfl, rfl⟩
  | append_singleton front c ih =>
    rw [List.foldl_concat, List.foldl_concat]
    have hc : c ≠ '\\' := fun heq => hescape (heq ▸ h.subset (by simp))
    exact (ih ((List.prefix_append _ _).trans h)).step hc (hnested front c h)

/-- **Counting brackets is enough** for a selector without backslashes whose brackets are nested. -/
theorem counts_iff {selector : Text} (hescape : '\\' ∉ selector) (hnested : Nested selector)
    {front : Text} (h : front <+: selector) : Counts front ↔ Separates front :=
  (agrees_of_nested hescape hnested h).isTop_iff

/-! ## Blocks -/

/-- The first inline comma of a selector stands `n` lines below its start. -/
def CommaLine (top : Text → Prop) (selector : Text) (n : Nat) : Prop :=
  ∃ front rest, FirstInline top selector front rest ∧ front.count '\n' = n

/-- The record on a block of the text `s` shows the line of its first inline comma. -/
structure ShowsComma (top : Text → Prop) (s : Text) (b : Block) (d : Diagnostic) : Prop where
  key : d.key = some (placeKey "require-newline".toList b.span.first)
  column : d.column = some b.span.first.column
  message : d.message = oneSelectorMessage
  line : ∃ before after front rest, s = before ++ (b.selector ++ after) ∧
    b.span.first = Position.after before ∧ FirstInline top b.selector front rest ∧
    d.line = (Position.after (before ++ front)).line

/-- The records are on the blocks that are no mixin definitions and have an inline comma, one on each
and in their order. -/
def ReportsCommas (top : Text → Prop) (s : Text) (blocks : List Block) (ds : List Diagnostic) : Prop :=
  ∃ reported : List Block, reported.Sublist blocks ∧
    (∀ b ∈ blocks, b ∈ reported ↔
      b.params = none ∧ ∃ front rest, InlineComma top b.selector front rest) ∧
    List.Forall₂ (ShowsComma top s) reported ds

/-- What is found belongs, one by one, to the elements for which there is something. -/
theorem forall₂_filterMap {α β : Type} {R : α → β → Prop} {f : α → Option β} {l : List α}
    (h : ∀ a ∈ l, ∀ b, f a = some b → R a b) :
    List.Forall₂ R (l.filter fun a => (f a).isSome) (l.filterMap f) := by
  induction l with
  | nil => exact .nil
  | cons a l ih =>
    have ih := ih fun a ha => h a (List.mem_cons_of_mem _ ha)
    cases hfa : f a with
    | none => simpa [hfa] using ih
    | some b =>
      rw [List.filterMap_cons_some hfa, List.filter_cons_of_pos (by simp [hfa])]
      exact .cons (h a List.mem_cons_self b hfa) ih

theorem exists_commaLine_iff (top : Text → Prop) (selector : Text) :
    (∃ n, CommaLine top selector n) ↔ ∃ front rest, InlineComma top selector front rest := by
  constructor
  · rintro ⟨_, front, rest, h, -⟩
    exact ⟨front, rest, h.comma⟩
  · rintro ⟨_, _, h⟩
    obtain ⟨front, rest, hfirst⟩ := h.exists_first
    exact ⟨_, front, rest, hfirst, rfl⟩

theorem ShowsComma.line_eq {top : Text → Prop} {s : Text} {b : Block} {d : Diagnostic}
    (h : ShowsComma top s b d) :
    ∃ n, CommaLine top b.selector n ∧ d.line = b.span.first.line + n := by
  obtain ⟨before, after, front, rest, -, hfirst, hcomma, hline⟩ := h.line
  refine ⟨_, ⟨front, rest, hcomma, rfl⟩, ?_⟩
  rw [hline, hfirst, Position.after_eq, Position.after_eq, List.count_append, Nat.add_assoc]

/-- Readings that agree on all of a selector find the same comma. -/
theorem commaLine_congr {p q : Text → Prop} {selector : Text}
    (h : ∀ front, front <+: selector → (p front ↔ q front)) (n : Nat) :
    CommaLine p selector n ↔ CommaLine q selector n := by
  have hcomma : InlineComma p selector = InlineComma q selector := by
    funext front rest
    refine propext ⟨fun hp => ⟨hp.eq, (h _ ?_).1 hp.top, hp.inline⟩,
      fun hq => ⟨hq.eq, (h _ ?_).2 hq.top, hq.inline⟩⟩
    · exact ⟨_, hp.eq.symm⟩
    · exact ⟨_, hq.eq.symm⟩
  have hfirst : FirstInline p selector = FirstInline q selector := by
    funext front rest
    exact propext ⟨fun hp => ⟨hcomma ▸ hp.comma, hcomma ▸ hp.first⟩,
      fun hq => ⟨hcomma ▸ hq.comma, hcomma ▸ hq.first⟩⟩
  rw [CommaLine, CommaLine, hfirst]

theorem exists_mem_of_forall₂ {α β : Type} {R : α → β → Prop} {l : List α} {u : List β}
    (h : List.Forall₂ R l u) : (∀ a ∈ l, ∃ b ∈ u, R a b) ∧ ∀ b ∈ u, ∃ a ∈ l, R a b := by
  induction h with
  | nil => exact ⟨nofun, nofun⟩
  | cons hab _ ih => simp_all

/-- The blocks on which there are records, and their lines, can be seen from the keys. -/
theorem ReportsCommas.commaLine_iff {top : Text → Prop} {s : Text} {blocks : List Block}
    {ds : List Diagnostic} (h : ReportsCommas top s blocks ds)
    (hblocks : blocks.Pairwise fun a b => a.span.first < b.span.first) {b : Block}
    (hb : b ∈ blocks) (hplain : b.params = none) (n : Nat) :
    CommaLine top b.selector n ↔
      ∃ d ∈ ds, d.key = some (placeKey "require-newline".toList b.span.first) ∧
        d.line = b.span.first.line + n := by
  obtain ⟨reported, hsub, hmem, hshows⟩ := h
  obtain ⟨hleft, hright⟩ := exists_mem_of_forall₂ hshows
  constructor
  · rintro ⟨front, rest, hfirst, rfl⟩
    obtain ⟨d, hd, hshow⟩ := hleft b ((hmem b hb).2 ⟨hplain, front, rest, hfirst.comma⟩)
    obtain ⟨_, ⟨front', rest', hfirst', rfl⟩, hline⟩ := hshow.line_eq
    exact ⟨d, hd, hshow.key, hfirst.front_unique hfirst' ▸ hline⟩
  · rintro ⟨d, hd, hkey, hline⟩
    obtain ⟨b', hb', hshow⟩ := hright d hd
    have hplace : b'.span.first = b.span.first :=
      placeKey_inj (Option.some.inj (hshow.key.symm.trans hkey))
    have hnodup : (blocks.map (·.span.first)).Nodup :=
      List.pairwise_map.2 (hblocks.imp fun hlt => hlt.ne)
    obtain rfl := List.inj_on_of_nodup_map hnodup (hsub.subset hb') hb hplace
    obtain ⟨m, hm, hline'⟩ := hshow.line_eq
    rwa [show n = m by omega]

/-- The records are right by two readings exactly if these agree on the lines of commas. -/
theorem reportsCommas_iff {p q : Text → Prop} {s : Text} {blocks : List Block} {ds : List Diagnostic}
    (h : ReportsCommas p s blocks ds)
    (hblocks : blocks.Pairwise fun a b => a.span.first < b.span.first) :
    ReportsCommas q s blocks ds ↔ ∀ b ∈ blocks, b.params = none →
      ∀ n, CommaLine p b.selector n ↔ CommaLine q b.selector n := by
  constructor
  · intro hq b hb hplain n
    rw [h.commaLine_iff hblocks hb hplain, hq.commaLine_iff hblocks hb hplain]
  · intro hagree
    obtain ⟨reported, hsub, hmem, hshows⟩ := h
    have hexists : ∀ b ∈ blocks, b ∈ reported ↔
        b.params = none ∧ ∃ front rest, InlineComma q b.selector front rest := by
      intro b hb
      rw [hmem b hb, ← exists_commaLine_iff, ← exists_commaLine_iff]
      exact and_congr_right fun hplain => exists_congr (hagree b hb hplain)
    refine ⟨reported, hsub, hexists, ?_⟩
    refine ((List.forall₂_and_left _ _).2 ⟨fun b hb => hb, hshows⟩).imp fun b d ⟨hb, hshow⟩ => ?_
    have hplain := ((hmem b (hsub.subset hb)).1 hb).1
    obtain ⟨before, after, front, rest, hs, hfirst, hcomma, hline⟩ := hshow.line
    obtain ⟨front', rest', hcomma', hcount⟩ :=
      (hagree b (hsub.subset hb) hplain _).1 ⟨front, rest, hcomma, rfl⟩
    refine ⟨hshow.key, hshow.column, hshow.message, before, after, front', rest', hs, hfirst,
      hcomma', ?_⟩
    rw [hline, Position.after_eq, Position.after_eq, List.count_append, List.count_append, hcount]

/-- The records on selectors that the rule gives. -/
theorem reportsCommas_oneSelectorPerLine {s : Text} {ts : List Token} {sheet : Sheet}
    (hlex : Token.Lexed .start .start s ts) (hsheet : Sheet.ofTokens ts = .ok sheet) (page : Page)
    (rule : Text) :
    ReportsCommas Counts s sheet.blocks
      ((oneSelectorPerLine page sheet).map (·.toDiagnostic rule)) := by
  rw [oneSelectorPerLine, List.filterMap_filter, List.map_filterMap]
  refine ⟨_, List.filter_sublist, fun b hb => ?_, forall₂_filterMap fun b hb d hd => ?_⟩
  · rw [List.mem_filter, ← isSome_inlineComma?_iff]
    cases b.params with
    | none => simp [hb]
    | some ps => simp
  · obtain ⟨f, hf, rfl⟩ := Option.map_eq_some_iff.1 hd
    rw [Option.ite_none_right_eq_some] at hf
    obtain ⟨front, hfront, rfl⟩ := Option.map_eq_some_iff.1 hf.2
    obtain ⟨rest, hcomma⟩ := (inlineComma?_eq_some_iff _ _).1 hfront
    obtain ⟨ns, depth, hn⟩ := Sheet.exists_mem_walk_of_mem_blocks hb
    obtain ⟨before, after, hs, hfirst⟩ := Sheet.standsIn hlex hsheet _ hn
    refine ⟨rfl, rfl, rfl, before, after, front, rest, hs, hfirst, hcomma, ?_⟩
    change b.span.first.line + front.count '\n' = _
    rw [show b.span.first = Position.after before from hfirst, Position.after_eq, Position.after_eq,
      List.count_append, Nat.add_assoc]

/-- **Selectors that share a line are reported by the count.** Let a file be read from the text `s` and
the rule be enabled. There is one record for each block that is no mixin definition and has an inline
comma by the count of brackets, with the line of the first such comma. These are the commas that
separate selectors exactly if in each such block the first of both kinds are on the same line; in a
selector without backslashes and with nested brackets they are. -/
theorem selectors_of_read {s : Text} {file : File} {config : Config} {setting : Setting}
    (hread : File.read s = .ok file)
    (henabled : config.enabled? "require-newline".toList = some setting) :
    ReportsCommas Counts s file.sheet.blocks
        ((runAll config file).filter (·.rule = "require-newline".toList)) ∧
      (ReportsCommas Separates s file.sheet.blocks
          ((runAll config file).filter (·.rule = "require-newline".toList)) ↔
        ∀ b ∈ file.sheet.blocks, b.params = none →
          ∀ n, CommaLine Counts b.selector n ↔ CommaLine Separates b.selector n) ∧
      ∀ b ∈ file.sheet.blocks, '\\' ∉ b.selector → Nested b.selector →
        ∀ n, CommaLine Counts b.selector n ↔ CommaLine Separates b.selector n := by
  obtain ⟨-, hts, hsheet⟩ := File.eq_of_read hread
  have hlex := Token.lexed_of_tokensFrom hts
  have hmem : onSheet "require-newline" oneSelectorPerLine ∈ all := by
    simp [all]
  rw [filter_runAll_onSheet hmem henabled]
  have hreports :=
    reportsCommas_oneSelectorPerLine hlex hsheet file.page "require-newline".toList
  exact ⟨hreports, reportsCommas_iff hreports (Sheet.pairwise_blocks hlex hsheet),
    fun b _ hescape hnested => commaLine_congr fun _ h => counts_iff hescape hnested h⟩

/-- The first of two commas ends its line. -/
def sharedLine : Text := "a,\nb, c\x7b\x7d".toList

theorem selectors_of_read_shared :
    ∃ file, File.read sharedLine = .ok file ∧
      (Config.only "require-newline".toList (.flag true)).enabled? "require-newline".toList =
        some (.flag true) ∧
      ((runAll (Config.only "require-newline".toList (.flag true)) file).filter
        (·.rule = "require-newline".toList)).map (·.line) = [2] ∧
      ReportsCommas Separates sharedLine file.sheet.blocks
        ((runAll (Config.only "require-newline".toList (.flag true)) file).filter
          (·.rule = "require-newline".toList)) := by
  obtain ⟨file, hread, hfile⟩ := File.exists_of_eval (s := sharedLine)
    (f := fun file => (file.sheet.blocks.map (·.selector),
      ((runAll (Config.only "require-newline".toList (.flag true)) file).filter
        (·.rule = "require-newline".toList)).map (·.line)))
    (a := (["a,\nb, c".toList], [2])) (by decide +kernel)
  obtain ⟨hselectors, hlines⟩ := Prod.mk.inj hfile
  have henabled : (Config.only "require-newline".toList (.flag true)).enabled?
      "require-newline".toList = some (.flag true) := by
    decide
  obtain ⟨-, hreports, hnested⟩ := selectors_of_read hread henabled
  refine ⟨file, hread, henabled, hlines, hreports.2 fun b hb _ => ?_⟩
  have hb : b.selector = "a,\nb, c".toList := by
    simpa [hselectors] using List.mem_map_of_mem (f := (·.selector)) hb
  refine hnested b ‹_› (by rw [hb]; decide) fun front c h hcross => ?_
  have hopener : "a,\nb, c".toList.all (fun c => !(opener? c).isSome) = true := by decide
  have hc := List.all_eq_true.1 hopener c (hb ▸ h.subset (by simp))
  rw [hcross.closing] at hc
  cases hc

/-- A string with an escaped quote, and a comma in it. -/
def quotedComma : Text := "\"\\\",\"\x7b\x7d".toList

/-- The comma in the string is taken for one between selectors. -/
theorem exists_record_on_quotedComma :
    ∃ file, File.read quotedComma = .ok file ∧ ∃ b ∈ file.sheet.blocks, b.params = none ∧
      (∃ d ∈ runAll (Config.only "require-newline".toList (.flag true)) file,
        d.rule = "require-newline".toList ∧
          d.key = some (placeKey "require-newline".toList b.span.first)) ∧
      ∀ front rest, ¬ InlineComma Separates b.selector front rest := by
  obtain ⟨file, hread, hfile⟩ := File.exists_of_eval (s := quotedComma)
    (f := fun file => decide (∃ b ∈ file.sheet.blocks, b.params.isNone ∧
      b.selector = ['"', '\\', '"', ',', '"'] ∧
      ∃ d ∈ runAll (Config.only "require-newline".toList (.flag true)) file,
        d.rule = "require-newline".toList ∧
          d.key = some (placeKey "require-newline".toList b.span.first)))
    (a := true) (by decide +kernel)
  obtain ⟨b, hb, hplain, hselector, hrecord⟩ := of_decide_eq_true hfile
  refine ⟨file, hread, b, hb, by simpa using hplain, hrecord, fun front rest h => ?_⟩
  rw [hselector] at h
  have hquoted : ∀ k < 5, Separates (['"', '\\', '"', ',', '"'].take k) → k = 0 := by decide
  have hfront : ['"', '\\', '"', ',', '"'].take front.length = front := by
    rw [h.eq, List.take_left]
  have hlen : front.length < 5 := by
    have := congrArg List.length h.eq
    simp only [List.length_cons, List.length_nil, List.length_append] at this
    omega
  obtain rfl := List.length_eq_zero_iff.1 (hquoted _ hlen (by rw [hfront]; exact h.top))
  exact absurd (List.cons.inj h.eq).1 (by decide)

end LessStyle.Rule
