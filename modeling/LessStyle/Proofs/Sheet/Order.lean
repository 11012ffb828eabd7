import LessStyle.Proofs.Sheet.Lines

/-!
# The walk on the lines of a text

A block or a call can spread its selector over several lines, and nothing else begins on these lines
before the selector ends: a child is printed behind the opening brace, a later node behind the whole
node (`Node.pairwise_selector`). So the walk never goes back to an earlier line, not even to one of
the lines of a selector (`Sheet.pairwise_lines`). A rule that goes over the nodes and over the lines
of their selectors therefore meets the lines of the text in their order. A declaration has no children,
so each one begins behind the value of the one before (`Sheet.pairwise_written`).
-/

namespace LessStyle

/-- A declaration as it is written, up to the end of its value. -/
def Declaration.written (d : Declaration) : Text := d.prop ++ d.between ++ d.rawValue

namespace Node

/-- The selector of a block or a call; other nodes have none. -/
def selector : Node → Text
  | block b _ => b.selector
  | call c => c.selector
  | _ => []

theorem selector_isPrefix_core (n : Node) : n.selector <+: n.core := by
  cases n <;> simp [selector, core]

theorem selector_isPrefix_statement (n : Node) : n.selector <+: n.statement := by
  cases n with
  | block b ns => exact List.prefix_rfl
  | call c => exact List.prefix_rfl
  | _ => exact List.nil_prefix

/-- The children of a node are printed behind its selector. -/
theorem selector_isPrefix_lead {n : Node} (h : n.children ≠ []) : n.selector <+: n.lead := by
  cases n with
  | block b ns => simp [selector, lead]
  | atBlock r ns => exact List.nil_prefix
  | _ => exact absurd rfl h

/-- A node of the walk is printed behind what earlier nodes begin with, if that is printed before
their children. -/
theorem pairwise_printed {head : Node → Text} (hcore : ∀ n, head n <+: n.core)
    (hlead : ∀ n, n.children ≠ [] → head n <+: n.lead) (front : Text) (ns : List Node) :
    (placesList front ns).Pairwise fun a b => a.1 ++ head a.2 <+: b.1 := by
  refine inductList
    (P := fun n => ∀ front, (n.places front).Pairwise fun a b => a.1 ++ head a.2 <+: b.1)
    (Q := fun ns => ∀ front,
      (placesList front ns).Pairwise fun a b => a.1 ++ head a.2 <+: b.1)
    ?node ?nil ?cons ns front
  case node =>
    intro n ih front
    rw [places_eq]
    refine .cons ?_ (ih _)
    intro q hq
    have hne : n.children ≠ [] := by
      intro hnil
      rw [hnil] at hq
      cases hq
    have hbegins := (List.prefix_append_right_inj (front ++ n.before)).2 (hlead n hne)
    exact hbegins.trans (within_placesList _ _ q hq).1
  case nil => exact fun _ => .nil
  case cons =>
    intro n ns hn hns front
    rw [placesList]
    refine List.pairwise_append.2 ⟨hn front, hns _, ?_⟩
    intro a ha b hb
    have hwithin : Within front (front ++ n.print) a := by
      have := within_placesList front [n] a (by simpa [placesList] using ha)
      rwa [printList_singleton] at this
    have hbegins := (List.prefix_append_right_inj a.1).2 (hcore a.2)
    exact (hbegins.trans hwithin.2).trans (within_placesList _ _ b hb).1

/-- **A node of the walk is printed behind the selectors of all earlier nodes.** -/
theorem pairwise_selector (front : Text) (ns : List Node) :
    (placesList front ns).Pairwise fun a b => a.1 ++ a.2.selector <+: b.1 :=
  pairwise_printed selector_isPrefix_core (fun _ => selector_isPrefix_lead) front ns

/-- A declaration up to the end of its value; other nodes have none. -/
def declared : Node → Text
  | declaration d => d.written
  | _ => []

/-- **A node of the walk is printed behind all earlier declarations.** -/
theorem pairwise_declared (front : Text) (ns : List Node) :
    (placesList front ns).Pairwise fun a b => a.1 ++ a.2.declared <+: b.1 := by
  refine pairwise_printed (fun n => ?_) (fun n hne => ?_) front ns
  · cases n with
    | declaration d => exact List.prefix_append _ _
    | _ => exact List.nil_prefix
  · cases n with
    | declaration d => exact absurd rfl hne
    | _ => exact List.nil_prefix

end Node

namespace Sheet

variable {s : Text} {ts : List Token} {sheet : Sheet}

/-- The declarations come in the order of the walk. -/
theorem pairwise_declarations_of_walk {R : Declaration → Declaration → Prop}
    (h : sheet.walk.Pairwise fun a b =>
      ∀ d d', a.1 = .declaration d → b.1 = .declaration d' → R d d') :
    sheet.declarations.Pairwise R := by
  refine List.Pairwise.filterMap _ ?_ h
  intro n n' hR d hd d' hd'
  split at hd
  · split at hd'
    · obtain rfl := Option.some.inj hd
      obtain rfl := Option.some.inj hd'
      exact hR _ _ rfl rfl
    · cases hd'
  · cases hd

/-- **The walk meets the lines in their order.** Each node begins on the last line of the selector of
an earlier node or on a later one. -/
theorem pairwise_lines (hlex : Token.Lexed .start .start s ts) (hsheet : ofTokens ts = .ok sheet) :
    sheet.walk.Pairwise fun a b =>
      a.1.span.first.line + a.1.selector.count '\n' ≤ b.1.span.first.line := by
  have hexact := exact_of_lexed hlex hsheet
  refine Node.pairwise_walkList
    (R := fun m n => m.span.first.line + m.selector.count '\n' ≤ n.span.first.line) 0
    ((Node.pairwise_selector [] sheet.nodes).imp_of_mem ?_)
  intro a b ha hb hprefix
  have hcount := hprefix.sublist.count_le '\n'
  rw [List.count_append] at hcount
  rw [(hexact a ha).first_eq, (hexact b hb).first_eq, Position.after_eq, Position.after_eq]
  show 1 + a.1.count '\n' + a.2.selector.count '\n' ≤ 1 + b.1.count '\n'
  omega

/-- Each declaration begins on the line of an earlier one or on a later line. -/
theorem pairwise_declarations (hlex : Token.Lexed .start .start s ts)
    (hsheet : ofTokens ts = .ok sheet) :
    sheet.declarations.Pairwise (·.span.first.line ≤ ·.span.first.line) := by
  refine pairwise_declarations_of_walk ((pairwise_lines hlex hsheet).imp ?_)
  rintro ⟨_, _⟩ ⟨_, _⟩ hle d d' rfl rfl
  exact Nat.le_trans (Nat.le_add_right _ _) hle

/-- Each declaration begins behind the value of an earlier one. -/
theorem pairwise_written (hlex : Token.Lexed .start .start s ts)
    (hsheet : ofTokens ts = .ok sheet) :
    sheet.declarations.Pairwise fun d d' => d.span.first.advance d.written ≤ d'.span.first := by
  have hexact := exact_of_lexed hlex hsheet
  have hwalk : sheet.walk.Pairwise fun a b =>
      a.1.span.first.advance a.1.declared ≤ b.1.span.first := by
    refine Node.pairwise_walkList
      (R := fun m n => m.span.first.advance m.declared ≤ n.span.first) 0
      ((Node.pairwise_declared [] sheet.nodes).imp_of_mem ?_)
    intro a b ha hb hprefix
    rw [(hexact a ha).first_eq, (hexact b hb).first_eq, ← Position.after_append]
    exact Position.after_le_of_prefix hprefix
  refine pairwise_declarations_of_walk (hwalk.imp ?_)
  rintro ⟨_, _⟩ ⟨_, _⟩ hle d d' rfl rfl
  exact hle

/-- Lines are counted from one. -/
theorem one_le_line (hlex : Token.Lexed .start .start s ts) (hsheet : ofTokens ts = .ok sheet)
    {n : Node × Nat} (hn : n ∈ sheet.walk) : 1 ≤ n.1.span.first.line := by
  obtain ⟨front, rest, -, hfirst⟩ := standsIn hlex hsheet n hn
  rw [hfirst, Position.after_eq]
  exact Nat.le_add_right 1 _

end Sheet

end LessStyle
