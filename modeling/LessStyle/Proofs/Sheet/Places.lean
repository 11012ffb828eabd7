import LessStyle.Proofs.Sheet.RoundTrip
import LessStyle.Proofs.Text.Position

/-!
# Where the nodes of a sheet are printed

`Node.placesList` walks over nodes and keeps, for each of them, all the text that is printed before it.
A node is `Exact` at its place if its span is that of its `core` there: what it prints after the text
before it, up to the last character that counts.

Exact spans are in order. If all nodes of a list are exact then siblings follow one another, children
lie inside their parents, and the walk goes strictly forward. Nothing of this depends on how the nodes
came about; it only needs that pieces of one text which are printed one after another, or one inside
the other, keep that order as positions.
-/

namespace LessStyle

namespace Node

/-- What a node prints after the text before it, up to the last character of its span. Blanks at the
end of an at-rule do not count if neither a block nor a semicolon follows them. -/
def core : Node → Text
  | atRule r =>
    if r.semicolon then r.heading ++ [';']
    else if r.params = [] then '@' :: r.name
    else '@' :: r.name ++ r.afterName ++ r.params
  | atBlock r ns => r.heading ++ '{' :: printList ns ++ r.after ++ ['}']
  | block b ns => b.selector ++ b.between ++ '{' :: printList ns ++ b.after ++ ['}']
  | call c => c.selector ++ semicolonText c.semicolon
  | declaration d => d.prop ++ d.between ++ d.rawValue ++ semicolonText d.semicolon
  | comment c => c.raw

/-- The part of the core that is printed before the first child. -/
def lead : Node → Text
  | atBlock r _ => r.heading ++ ['{']
  | block b _ => b.selector ++ b.between ++ ['{']
  | _ => []

mutual

/-- A node and all nodes inside it, as they are walked over, each with the text that is printed before
its core. `front` is the text before the node. -/
def places (front : Text) : Node → List (Text × Node)
  | atBlock r ns =>
    (front ++ r.before, atBlock r ns) :: placesList (front ++ r.before ++ (r.heading ++ ['{'])) ns
  | block b ns =>
    (front ++ b.before, block b ns) ::
      placesList (front ++ b.before ++ (b.selector ++ b.between ++ ['{'])) ns
  | n => [(front ++ n.before, n)]

/-- The places of consecutive nodes. -/
def placesList (front : Text) : List Node → List (Text × Node)
  | [] => []
  | n :: ns => n.places front ++ placesList (front ++ n.print) ns

end

theorem places_eq (front : Text) (n : Node) :
    n.places front =
      (front ++ n.before, n) :: placesList (front ++ n.before ++ n.lead) n.children := by
  cases n <;> simp [places, before, lead, children, placesList]

theorem placesList_append (front : Text) (ms ns : List Node) :
    placesList front (ms ++ ns) = placesList front ms ++ placesList (front ++ printList ms) ns := by
  induction ms generalizing front with
  | nil => simp [placesList, printList]
  | cons m ms ih => simp [placesList, printList, ih]

/-- A node holds its children and something on both sides of them. -/
theorem core_eq (n : Node) :
    n.children = [] ∨
      n.lead ≠ [] ∧ ∃ r, r ≠ [] ∧ n.core = n.lead ++ printList n.children ++ r := by
  cases n with
  | atBlock r ns =>
    refine .inr ⟨by simp [lead], r.after ++ ['}'], by simp, ?_⟩
    simp [core, lead, children]
  | block b ns =>
    refine .inr ⟨by simp [lead], b.after ++ ['}'], by simp, ?_⟩
    simp [core, lead, children]
  | _ => exact .inl rfl

theorem core_isPrefix (n : Node) : n.before ++ n.core <+: n.print := by
  cases n with
  | atRule r =>
    rw [AtRule.print_atRule, before, core, List.append_assoc r.before,
      List.prefix_append_right_inj]
    split
    · next h =>
      rw [h]
      exact List.prefix_rfl
    split
    · exact ⟨r.afterName ++ r.params ++ r.between ++ semicolonText r.semicolon,
        by simp [AtRule.heading]⟩
    · exact ⟨r.between ++ semicolonText r.semicolon, by simp [AtRule.heading]⟩
  | atBlock r ns => simp [print, core, before, AtRule.heading]
  | block b ns => simp [print, core, before]
  | call c => simp [print, core, before]
  | declaration d => simp [print, core, before]
  | comment c => simp [print, core, before]

/-! ## Induction over the tree -/

mutual

theorem induct {P : Node → Prop} {Q : List Node → Prop} (node : ∀ n, Q n.children → P n)
    (nil : Q []) (cons : ∀ n ns, P n → Q ns → Q (n :: ns)) : ∀ n, P n
  | atBlock _ ns => node _ (inductList node nil cons ns)
  | block _ ns => node _ (inductList node nil cons ns)
  | atRule _ | call _ | declaration _ | comment _ => node _ nil

/-- What holds of a list of nodes if it holds of all lists of children. The property `P` of a single
node follows from that of its children. -/
theorem inductList {P : Node → Prop} {Q : List Node → Prop} (node : ∀ n, Q n.children → P n)
    (nil : Q []) (cons : ∀ n ns, P n → Q ns → Q (n :: ns)) : ∀ ns, Q ns
  | [] => nil
  | n :: ns => cons n ns (induct node nil cons n) (inductList node nil cons ns)

end

/-! ## Bounds -/

/-- The core of a node at its place, printed after `a` and within `b`. -/
def Within (a b : Text) (pl : Text × Node) : Prop := a <+: pl.1 ∧ pl.1 ++ pl.2.core <+: b

theorem Within.mono {a a' b b' : Text} {pl : Text × Node} (h : Within a b pl) (ha : a' <+: a)
    (hb : b <+: b') : Within a' b' pl :=
  ⟨ha.trans h.1, h.2.trans hb⟩

theorem append_core_isPrefix (front : Text) (n : Node) :
    front ++ n.before ++ n.core <+: front ++ n.print := by
  rw [List.append_assoc, List.prefix_append_right_inj]
  exact n.core_isPrefix

/-- Nodes and the nodes inside them are printed within the text of the nodes. -/
theorem within_placesList (front : Text) (ns : List Node) :
    ∀ pl ∈ placesList front ns, Within front (front ++ printList ns) pl := by
  refine inductList
    (P := fun n => ∀ front, ∀ pl ∈ n.places front, Within front (front ++ n.print) pl)
    (Q := fun ns => ∀ front, ∀ pl ∈ placesList front ns, Within front (front ++ printList ns) pl)
    ?node ?nil ?cons ns front
  case node =>
    intro n ih front pl hpl
    have hcore := append_core_isPrefix front n
    rw [places_eq, List.mem_cons] at hpl
    rcases hpl with rfl | hpl
    · exact ⟨List.prefix_append _ _, hcore⟩
    · rcases n.core_eq with hnil | ⟨-, r, -, hr⟩
      · rw [hnil] at hpl
        cases hpl
      · refine (ih _ pl hpl).mono ⟨n.before ++ n.lead, by simp⟩ (List.IsPrefix.trans ?_ hcore)
        rw [hr]
        exact ⟨r, by simp⟩
  case nil => simp [placesList]
  case cons =>
    intro n ns hn hns front pl hpl
    rw [placesList, List.mem_append] at hpl
    rw [printList, ← List.append_assoc]
    rcases hpl with hpl | hpl
    · exact (hn front pl hpl).mono List.prefix_rfl (List.prefix_append _ _)
    · exact (hns _ pl hpl).mono (List.prefix_append _ _) List.prefix_rfl

/-! ## The walk -/

theorem walk_eq (depth : Nat) (n : Node) :
    n.walk depth = (n, depth) :: walkList (depth + 1) n.children := by
  cases n <;> simp [walk, children, walkList]

/-- The places are those of the nodes of the walk, in its order. -/
theorem map_snd_placesList (front : Text) (depth : Nat) (ns : List Node) :
    (placesList front ns).map Prod.snd = (walkList depth ns).map Prod.fst := by
  refine inductList
    (P := fun n => ∀ front depth, (n.places front).map Prod.snd = (n.walk depth).map Prod.fst)
    (Q := fun ns => ∀ front depth,
      (placesList front ns).map Prod.snd = (walkList depth ns).map Prod.fst)
    ?node ?nil ?cons ns front depth
  case node =>
    intro n ih front depth
    rw [places_eq, walk_eq, List.map_cons, List.map_cons, ih _ (depth + 1)]
  case nil => exact fun _ _ => rfl
  case cons =>
    intro n ns hn hns front depth
    rw [placesList, walkList, List.map_append, List.map_append, hn front depth, hns _ depth]

theorem exists_place_of_mem_walkList {depth : Nat} {ns : List Node} {x : Node × Nat}
    (hx : x ∈ walkList depth ns) (front : Text) : ∃ f, (f, x.1) ∈ placesList front ns := by
  have hmem := List.mem_map_of_mem (f := Prod.fst) hx
  rw [← map_snd_placesList front] at hmem
  obtain ⟨⟨f, n⟩, hpl, heq⟩ := List.mem_map.1 hmem
  exact ⟨f, heq ▸ hpl⟩

/-- What holds of the nodes at their places holds in the walk. -/
theorem pairwise_walkList {R : Node → Node → Prop} {front : Text} {ns : List Node} (depth : Nat)
    (h : (placesList front ns).Pairwise fun a b => R a.2 b.2) :
    (walkList depth ns).Pairwise fun a b => R a.1 b.1 := by
  have hnodes : ((walkList depth ns).map Prod.fst).Pairwise R := by
    rw [← map_snd_placesList front, List.pairwise_map]
    exact h
  rwa [List.pairwise_map] at hnodes

theorem exists_mem_placesList {ns : List Node} {n : Node} (hn : n ∈ ns) (front : Text) :
    ∃ f, (f, n) ∈ placesList front ns := by
  induction ns generalizing front with
  | nil => cases hn
  | cons m ns ih =>
    rw [placesList, places_eq]
    rcases List.mem_cons.1 hn with rfl | hn
    · exact ⟨front ++ n.before, by simp⟩
    · obtain ⟨f, hf⟩ := ih hn (front ++ m.print)
      exact ⟨f, List.mem_append_right _ hf⟩

/-- The children of a node of the list have their places in the list. -/
theorem children_placesList (front : Text) (ns : List Node) :
    ∀ pl ∈ placesList front ns,
      placesList (pl.1 ++ pl.2.lead) pl.2.children ⊆ placesList front ns := by
  refine inductList
    (P := fun n => ∀ front, ∀ pl ∈ n.places front,
      placesList (pl.1 ++ pl.2.lead) pl.2.children ⊆ n.places front)
    (Q := fun ns => ∀ front, ∀ pl ∈ placesList front ns,
      placesList (pl.1 ++ pl.2.lead) pl.2.children ⊆ placesList front ns)
    ?node ?nil ?cons ns front
  case node =>
    intro n ih front pl hpl
    rw [places_eq, List.mem_cons] at hpl
    rw [places_eq]
    refine List.subset_cons_of_subset _ ?_
    rcases hpl with rfl | hpl
    · exact List.Subset.refl _
    · exact ih _ pl hpl
  case nil => simp [placesList]
  case cons =>
    intro n ns hn hns front pl hpl
    rw [placesList, List.mem_append] at hpl
    rw [placesList]
    rcases hpl with hpl | hpl
    · exact List.subset_append_of_subset_left _ (hn front pl hpl)
    · exact List.subset_append_of_subset_right _ (hns _ pl hpl)

/-! ## Exact spans -/

/-- The span of a node is that of its core at its place. -/
structure Exact (pl : Text × Node) : Prop where
  core_ne_nil : pl.2.core ≠ []
  span : pl.2.span = Span.of (Position.after pl.1) pl.2.core

namespace Exact

variable {pl : Text × Node}

theorem first_eq (h : Exact pl) : pl.2.span.first = Position.after pl.1 := by
  rw [h.span]
  rfl

theorem last_eq (h : Exact pl) : pl.2.span.last = Position.after (pl.1 ++ pl.2.core.dropLast) := by
  rw [h.span, Position.after_append]
  rfl

theorem first_le_last (h : Exact pl) : pl.2.span.first ≤ pl.2.span.last := by
  rw [h.span]
  exact Span.first_le_last_of _ _

/-- A node ends before whatever is printed after it. -/
theorem last_lt (h : Exact pl) {t : Text} (ht : pl.1 ++ pl.2.core <+: t) :
    pl.2.span.last < Position.after t := by
  rw [h.span]
  refine (Span.last_of_lt_advance _ h.core_ne_nil).trans_le ?_
  rw [← Position.after_append]
  exact Position.after_le_of_prefix ht

end Exact

/-- Siblings follow one another. -/
theorem pairwise_siblings {front : Text} {ns : List Node}
    (h : ∀ pl ∈ placesList front ns, Exact pl) :
    ns.Pairwise fun a b => a.span.last < b.span.first := by
  induction ns generalizing front with
  | nil => exact .nil
  | cons n ns ih =>
    rw [placesList, places_eq] at h
    have hrest : ∀ pl ∈ placesList (front ++ n.print) ns, Exact pl :=
      fun pl hpl => h pl (List.mem_append_right _ hpl)
    refine .cons (fun m hm => ?_) (ih hrest)
    have hn : Exact (front ++ n.before, n) := h _ (by simp)
    obtain ⟨f, hf⟩ := exists_mem_placesList hm (front ++ n.print)
    rw [(hrest _ hf).first_eq]
    exact hn.last_lt ((append_core_isPrefix front n).trans (within_placesList _ _ _ hf).1)

/-- A piece within the core of a node begins and ends strictly inside the node. -/
theorem Exact.inside {pl q : Text × Node} (h : Exact pl) (hq : Exact q)
    (hw : Within (pl.1 ++ pl.2.lead) (pl.1 ++ pl.2.lead ++ printList pl.2.children) q)
    (hne : pl.2.children ≠ []) :
    pl.2.span.first < q.2.span.first ∧ q.2.span.last < pl.2.span.last := by
  obtain ⟨hlead, r, hr, hcore⟩ := pl.2.core_eq.resolve_left hne
  constructor
  · rw [h.first_eq, hq.first_eq]
    calc Position.after pl.1
        < Position.after (pl.1 ++ pl.2.lead) := by
          rw [Position.after_append]
          exact Position.lt_advance _ hlead
      _ ≤ Position.after q.1 := Position.after_le_of_prefix hw.1
  · rw [h.last_eq, hcore, List.dropLast_append_of_ne_nil hr]
    refine hq.last_lt (hw.2.trans ?_)
    exact ⟨r.dropLast, by simp⟩

/-- What has its place inside a node begins and ends strictly inside it. -/
theorem Exact.encloses {pl q : Text × Node} (h : Exact pl) (hq : Exact q)
    (hmem : q ∈ placesList (pl.1 ++ pl.2.lead) pl.2.children) :
    pl.2.span.first < q.2.span.first ∧ q.2.span.last < pl.2.span.last := by
  apply h.inside hq (within_placesList _ _ q hmem)
  intro hnil
  rw [hnil] at hmem
  cases hmem

/-- Children lie strictly inside their parent. -/
theorem children_inside {pl : Text × Node} (h : Exact pl)
    (hchildren : ∀ q ∈ placesList (pl.1 ++ pl.2.lead) pl.2.children, Exact q) {c : Node}
    (hc : c ∈ pl.2.children) : pl.2.span.first < c.span.first ∧ c.span.last < pl.2.span.last := by
  obtain ⟨f, hf⟩ := exists_mem_placesList hc (pl.1 ++ pl.2.lead)
  exact h.encloses (hchildren _ hf) hf

/-- A node and all nodes inside it end before the nodes behind it begin. -/
theorem Exact.last_lt_first {front : Text} {n : Node} {ns : List Node} {a b : Text × Node}
    (ha : Exact a) (hb : Exact b) (hmem : a ∈ n.places front)
    (hmem' : b ∈ placesList (front ++ n.print) ns) : a.2.span.last < b.2.span.first := by
  have hwithin : Within front (front ++ n.print) a := by
    have := within_placesList front [n] a (by simpa [placesList] using hmem)
    rwa [printList_singleton] at this
  rw [hb.first_eq]
  exact ha.last_lt (hwithin.2.trans (within_placesList _ _ b hmem').1)

/-- The walk goes strictly forward. -/
theorem pairwise_first (front : Text) (ns : List Node) :
    (∀ pl ∈ placesList front ns, Exact pl) →
      (placesList front ns).Pairwise fun a b => a.2.span.first < b.2.span.first := by
  refine inductList
    (P := fun n => ∀ front, (∀ pl ∈ n.places front, Exact pl) →
      (n.places front).Pairwise fun a b => a.2.span.first < b.2.span.first)
    (Q := fun ns => ∀ front, (∀ pl ∈ placesList front ns, Exact pl) →
      (placesList front ns).Pairwise fun a b => a.2.span.first < b.2.span.first)
    ?node ?nil ?cons ns front
  case node =>
    intro n ih front h
    rw [places_eq] at h ⊢
    have hn := h _ List.mem_cons_self
    have hchildren := fun q hq => h q (List.mem_cons_of_mem _ hq)
    exact .cons (fun q hq => (hn.encloses (hchildren q hq) hq).1) (ih _ hchildren)
  case nil => exact fun _ _ => .nil
  case cons =>
    intro n ns hn hns front h
    rw [placesList] at h ⊢
    refine List.pairwise_append.2 ⟨hn front fun pl hpl => h pl (List.mem_append_left _ hpl),
      hns _ fun pl hpl => h pl (List.mem_append_right _ hpl), fun a ha b hb => ?_⟩
    have hexact := h a (List.mem_append_left _ ha)
    exact hexact.first_le_last.trans_lt
      (hexact.last_lt_first (h b (List.mem_append_right _ hb)) ha hb)

end Node

end LessStyle
