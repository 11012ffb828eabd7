import LessStyle.Proofs.Sheet.Contents

/-!
# Levels of blocks and calls

A block records its level when it is opened, and a call when it is read: the number of blocks that are
open then. The walk counts again on the finished tree. Both numbers are the same, because a draft has
the open blocks in the order in which they will stand around each other: the level of an open block is
the number of those outside it, and that is its depth when it is closed (`Draft.Levelled`).

The depth can also be seen from the spans alone. The blocks whose span encloses that of a node are those
on the way down to the node, and there are as many as its depth (`Node.path_around`).
-/

namespace LessStyle

/-! ## Blocks around a node -/

namespace Node

/-- The node is a rule or an at-rule with a block. -/
def isBlock : Node → Bool
  | atBlock _ _ | block _ _ => true
  | _ => false

/-- The node `m` begins before the node `n` and ends behind it. -/
def Encloses (m n : Node) : Prop := m.span.first < n.span.first ∧ n.span.last < m.span.last

instance (m n : Node) : Decidable (m.Encloses n) :=
  inferInstanceAs (Decidable (m.span.first < n.span.first ∧ n.span.last < m.span.last))

/-- The blocks that enclose the node `n`, of the nodes `ns` and all nodes inside them, in the order of
the walk. -/
def around (ns : List Node) (n : Node) : List Node :=
  ((walkList 0 ns).map Prod.fst).filter fun m => m.isBlock ∧ m.Encloses n

/-- The way down from the nodes `ns` to the node `n`, through the nodes in the list, the outer first. -/
inductive Path : List Node → List Node → Node → Prop where
  | here {ns : List Node} {n : Node} (mem : n ∈ ns) : Path ns [] n
  | down {ns outer : List Node} {m n : Node} (mem : m ∈ ns) (inner : Path m.children outer n) :
      Path ns (m :: outer) n

theorem Path.mono {ms ns outer : List Node} {n : Node} (h : Path ms outer n) (hsub : ms ⊆ ns) :
    Path ns outer n := by
  cases h with
  | here mem => exact .here (hsub mem)
  | down mem inner => exact .down (hsub mem) inner

theorem isBlock_of_mem_walkList {depth : Nat} {n : Node} {x : Node × Nat}
    (h : x ∈ walkList depth n.children) : n.isBlock = true := by
  cases n with
  | atBlock | block => rfl
  | _ => cases h

theorem map_fst_walkList (depth : Nat) (ns : List Node) :
    (walkList depth ns).map Prod.fst = (walkList 0 ns).map Prod.fst := by
  rw [← map_snd_placesList [] depth, map_snd_placesList [] 0]

theorem walkList_singleton (depth : Nat) (n : Node) : walkList depth [n] = n.walk depth := by
  simp [walkList]

theorem around_cons (m : Node) (ns : List Node) (n : Node) :
    around (m :: ns) n = around [m] n ++ around ns n := by
  simp [around, walkList]

theorem around_singleton (m n : Node) :
    around [m] n =
      ([m].filter fun m => m.isBlock ∧ m.Encloses n) ++ around m.children n := by
  rw [around, walkList_singleton, walk_eq, List.map_cons, map_fst_walkList, List.filter_cons]
  split <;> simp_all [around]

/-- Of nodes that do not enclose another, none is around it. -/
theorem around_eq_nil {ns : List Node} {n : Node}
    (h : ∀ m ∈ walkList 0 ns, ¬ m.1.Encloses n) : around ns n = [] := by
  apply List.filter_eq_nil_iff.2
  intro m hm
  obtain ⟨x, hx, rfl⟩ := List.mem_map.1 hm
  simp [h x hx]

/-! ## Exact nodes -/

section

variable {front : Text} {n : Node} {ns : List Node}

/-- A node encloses all nodes inside it. -/
theorem encloses_of_mem_walkList (hexact : ∀ pl ∈ n.places front, Exact pl) {depth : Nat}
    {x : Node × Nat} (hx : x ∈ walkList depth n.children) : n.Encloses x.1 := by
  rw [places_eq] at hexact
  obtain ⟨f, hf⟩ := exists_place_of_mem_walkList hx (front ++ n.before ++ n.lead)
  exact (hexact _ List.mem_cons_self).encloses (hexact _ (List.mem_cons_of_mem _ hf)) hf

/-- The nodes inside a node and those behind it do not enclose each other. -/
theorem not_encloses_of_mem_walk (hexact : ∀ pl ∈ placesList front (n :: ns), Exact pl) {i j : Nat}
    {x y : Node × Nat} (hx : x ∈ n.walk i) (hy : y ∈ walkList j ns) :
    ¬ x.1.Encloses y.1 ∧ ¬ y.1.Encloses x.1 := by
  rw [← walkList_singleton] at hx
  obtain ⟨f, hf⟩ := exists_place_of_mem_walkList hx front
  obtain ⟨g, hg⟩ := exists_place_of_mem_walkList hy (front ++ n.print)
  rw [placesList, placesList, List.append_nil] at hf
  rw [placesList] at hexact
  have hxexact := hexact _ (List.mem_append_left _ hf)
  have hyexact := hexact _ (List.mem_append_right _ hg)
  have hlt := hxexact.last_lt_first hyexact hf hg
  constructor
  · rintro ⟨-, hlast⟩
    exact (hlast.trans hlt).not_ge hyexact.first_le_last
  · rintro ⟨hfirst, -⟩
    exact (hlt.trans hfirst).not_ge hxexact.first_le_last

end

/-- **The blocks around a node are those on the way down to it**, and the walk counts them, if all nodes
are exact at their places. -/
theorem path_around (front : Text) (depth : Nat) (ns : List Node) :
    (∀ pl ∈ placesList front ns, Exact pl) → ∀ x ∈ walkList depth ns,
      Path ns (around ns x.1) x.1 ∧ depth + (around ns x.1).length = x.2 := by
  refine inductList
    (P := fun n => ∀ front depth, (∀ pl ∈ n.places front, Exact pl) → ∀ x ∈ n.walk depth,
      Path [n] (around [n] x.1) x.1 ∧ depth + (around [n] x.1).length = x.2)
    (Q := fun ns => ∀ front depth, (∀ pl ∈ placesList front ns, Exact pl) →
      ∀ x ∈ walkList depth ns,
        Path ns (around ns x.1) x.1 ∧ depth + (around ns x.1).length = x.2)
    ?node ?nil ?cons ns front depth
  case node =>
    intro n ih front depth hexact x hx
    rw [walk_eq, List.mem_cons] at hx
    rcases hx with rfl | hx
    · -- the node itself: what it encloses does not enclose it
      have hinner : around n.children n = [] :=
        around_eq_nil fun m hm h => (encloses_of_mem_walkList hexact hm).1.asymm h.1
      have hself : ¬ n.Encloses n := fun h => lt_irrefl _ h.1
      have hnone : around [n] n = [] := by simp [around_singleton, hinner, hself]
      rw [hnone]
      exact ⟨.here List.mem_cons_self, rfl⟩
    · have hself : around [n] x.1 = n :: around n.children x.1 := by
        simp [around_singleton, isBlock_of_mem_walkList hx, encloses_of_mem_walkList hexact hx]
      rw [places_eq] at hexact
      obtain ⟨hpath, hlen⟩ := ih _ _ (fun q hq => hexact q (List.mem_cons_of_mem _ hq)) x hx
      rw [hself, List.length_cons]
      exact ⟨.down List.mem_cons_self hpath, by omega⟩
  case nil =>
    intro front depth hexact x hx
    cases hx
  case cons =>
    intro n ns hn hns front depth hexact x hx
    have hleft : ∀ pl ∈ n.places front, Exact pl := by
      intro pl hpl
      exact hexact pl (by simp [placesList, hpl])
    have hright : ∀ pl ∈ placesList (front ++ n.print) ns, Exact pl := by
      intro pl hpl
      exact hexact pl (by simp [placesList, hpl])
    rw [walkList, List.mem_append] at hx
    rw [around_cons]
    rcases hx with hx | hx
    · have hbehind : around ns x.1 = [] :=
        around_eq_nil fun m hm => (not_encloses_of_mem_walk hexact hx hm).2
      obtain ⟨hpath, hlen⟩ := hn front depth hleft x hx
      rw [hbehind, List.append_nil]
      exact ⟨hpath.mono (by simp), hlen⟩
    · have hbefore : around [n] x.1 = [] := by
        apply around_eq_nil
        intro m hm
        rw [walkList_singleton] at hm
        exact (not_encloses_of_mem_walk hexact hm hx).1
      obtain ⟨hpath, hlen⟩ := hns _ depth hright x hx
      rw [hbefore, List.nil_append]
      exact ⟨hpath.mono (List.subset_cons_self n ns), hlen⟩

end Node

/-! ## Recorded levels -/

/-- The level that a block or a call has recorded. -/
def Node.level? : Node → Option Nat
  | block b _ => some b.level
  | call c => some c.level
  | _ => none

/-- The level that an open block has recorded. -/
def Opening.level? : Opening → Option Nat
  | block b => some b.level
  | atRule _ => none

theorem Opening.level?_close (o : Opening) (children : List Node) (after : Text) (last : Position) :
    (o.close children after last).level? = o.level? := by
  cases o <;> rfl

namespace Draft

/-- A level that a finished node has recorded is the number of nodes around it, and a level that an open
block has recorded is the number of open blocks outside it. -/
structure Levelled (d : Draft) : Prop where
  finished : ∀ n ∈ d.finished, ∀ level ∈ n.1.level?, level = n.2
  opened : ∀ o os, o :: os <:+ d.openings → ∀ level ∈ o.level?, level = os.length

theorem levelled_start : Levelled .start where
  finished := by simp [Draft.finished, collect, collectFrames, start, Node.walkList]
  opened := by simp [openings, start]

namespace Levelled

variable {d d' : Draft}

/-- A node without children. -/
theorem push (h : d.Levelled) {n : Node} (hleaf : n.children = [])
    (hlevel : ∀ level ∈ n.level?, level = d.level) : (d.push n).Levelled where
  finished := by
    intro m hm
    rw [finished_push, List.mem_append, Node.walk_eq, hleaf, Node.walkList, List.mem_singleton] at hm
    rcases hm with hm | rfl
    · exact h.finished m hm
    · exact hlevel
  opened := by
    rw [openings_push]
    exact h.opened

theorem enter (h : d.Levelled) {o : Opening} (hlevel : ∀ level ∈ o.level?, level = d.level) :
    (d.enter o).Levelled where
  finished := by
    rw [finished_enter]
    exact h.finished
  opened := by
    intro o' os hsuffix
    rcases List.suffix_cons_iff.1 (show o' :: os <:+ o :: d.openings from hsuffix) with heq | hsuffix
    · obtain ⟨rfl, rfl⟩ := List.cons.inj heq
      rw [openings, List.length_map]
      exact hlevel
    · exact h.opened o' os hsuffix

/-- A block is finished with as many nodes around it as there were open blocks outside it. -/
theorem close (h : d.Levelled) {t : Token} (hclose : d.close t = .ok d') : d'.Levelled := by
  obtain ⟨o, os, children, hopenings, hopenings', hfinished⟩ := finished_close hclose
  have hopened := h.opened
  rw [hopenings] at hopened
  constructor
  · intro n hn
    rcases (hfinished n).1 hn with hn | rfl
    · exact h.finished n hn
    · rw [Opening.level?_close]
      exact hopened o os List.suffix_rfl
  · rw [hopenings']
    intro o' os' hsuffix
    exact hopened o' os' (hsuffix.trans (List.suffix_cons o os))

theorem simple (h : d.Levelled) {colon : Bool} {first : Token} {ts : List Token}
    {semicolon : Option Token} (hsimple : d.simple colon first ts semicolon = .ok d') :
    d'.Levelled := by
  unfold Draft.simple at hsimple
  split at hsimple
  · cases hsimple
    exact h.push rfl (by simp [Node.level?])
  split at hsimple
  · cases hsimple
    exact h.push rfl (by simp [Node.level?])
  · cases hsimple

end Levelled

/-- **One step keeps the levels.** -/
theorem Step.levelled {d d' : Draft} {taken rest : List Token} (h : Step d taken rest d')
    (hd : d.Levelled) : d'.Levelled := by
  have hatRule : ∀ r, (d.push (.atRule r)).Levelled := fun r => hd.push rfl (by simp [Node.level?])
  cases h with
  | blank kind => exact ⟨hd.finished, hd.opened⟩
  | close kind closes => exact hd.close closes
  | comment kind => exact hd.push rfl (by simp [Node.level?])
  | bare kind => exact hd.enter (by simp [Opening.level?])
  | block begins extent kind =>
    have hmixins : ∀ mixins, ({ d with mixins } : Draft).Levelled :=
      fun _ => ⟨hd.finished, hd.opened⟩
    exact (hmixins _).enter (by simp [Opening.level?, level])
  | ended begins extent kind simple => exact hd.simple simple
  | unended begins extent stop core simple => exact hd.simple simple
  | atRuleAtEnd begins params => exact ⟨(hatRule _).finished, (hatRule _).opened⟩
  | atRuleEnded begins params kind => exact hatRule _
  | atRuleOpened begins params kind => exact hd.enter (by simp [Opening.level?])
  | atRuleClosed begins params kind closes => exact (hatRule _).close closes

theorem Run.levelled {d d' : Draft} {ts : List Token} (h : Run d ts d') (hd : d.Levelled) :
    d'.Levelled := by
  induction h with
  | nil => exact hd
  | cons head tail ih => exact ih (head.levelled hd)

end Draft

namespace Sheet

/-- **Recorded levels are depths.** Whatever is read from a text, the level that a block or a call has
recorded is the depth at which the walk meets it. The depth of a node is the number of blocks, of rules
and at-rules, whose span encloses that of the node, and these are the blocks on the way down to it. -/
theorem level_of_tokenize {s : Text} {ts : List Token} {sheet : Sheet}
    (hts : Token.tokenize s = .ok ts) (hsheet : ofTokens ts = .ok sheet) :
    ∀ n ∈ sheet.walk, (∀ level ∈ n.1.level?, level = n.2) ∧
      n.2 = (Node.around sheet.nodes n.1).length ∧
      Node.Path sheet.nodes (Node.around sheet.nodes n.1) n.1 := by
  intro n hn
  have hexact := exact_of_lexed (Token.lexed_of_tokensFrom hts) hsheet
  obtain ⟨hpath, hlen⟩ := Node.path_around [] 0 sheet.nodes hexact n hn
  refine ⟨?_, by omega, hpath⟩
  obtain ⟨d, hrun, hf, rfl⟩ := exists_run hsheet
  have hlevelled := (hrun.levelled Draft.levelled_start).finished
  rw [Draft.finished_of_frames hf] at hlevelled
  exact hlevelled n hn

/-- A mixin that is called in a block without a selector inside an at-rule, and an at-rule that the
brace of its parent ends. -/
def nestedSource : Text :=
  ".m() \x7b\x7d @media a \x7b \x7b .m(); .b \x7b @c d \x7d \x7d \x7d .m()".toList

theorem level_of_tokenize_nested :
    ∃ ts sheet, Token.tokenize nestedSource = .ok ts ∧ ofTokens ts = .ok sheet ∧
      sheet.walk.map (fun n => (n.1.level?, n.2)) =
        [(some 0, 0), (none, 0), (some 1, 1), (some 2, 2), (some 2, 2), (none, 3), (some 0, 0)] ∧
      ∀ n ∈ sheet.walk, (∀ level ∈ n.1.level?, level = n.2) ∧
        n.2 = (Node.around sheet.nodes n.1).length ∧
        Node.Path sheet.nodes (Node.around sheet.nodes n.1) n.1 := by
  obtain ⟨ts, sheet, hts, hsheet, hwalk⟩ := exists_of_eval (s := nestedSource)
    (f := fun _ sheet => sheet.walk.map fun n => (n.1.level?, n.2))
    (a := [(some 0, 0), (none, 0), (some 1, 1), (some 2, 2), (some 2, 2), (none, 3), (some 0, 0)])
    (by decide +kernel)
  exact ⟨ts, sheet, hts, hsheet, hwalk, level_of_tokenize hts hsheet⟩

end Sheet

end LessStyle
