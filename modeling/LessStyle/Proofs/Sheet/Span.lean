import LessStyle.Proofs.Sheet.Places
import LessStyle.Proofs.Token.Span

/-!
# Spans of nodes

The spans of nodes are put together from those of their first and last tokens, and the end of a block
is filled in when it is closed. A draft is `Exact` if all its finished nodes are, at the places where
the draft prints them, and its open blocks begin where they are printed. Tokens that stand where the
draft ends keep it so, whatever statement they form (`Draft.Step.exact`).
-/

namespace LessStyle

open Token (join)

/-! ## Nodes from tokens -/

/-- From the first token of a statement to its end. -/
theorem span_statement {p : Position} {first : Token} {ts : List Token} {semicolon : Option Token}
    (h : Token.Located p (first :: (ts ++ semicolon.toList)))
    (hne : ∀ t ∈ first :: ts, t.text ≠ []) :
    (⟨first.span.first, statementEnd first ts semicolon⟩ : Span) =
      Span.of p (join (first :: ts) ++ semicolonText semicolon.isSome) := by
  cases semicolon with
  | none =>
    rw [Option.toList_none, List.append_nil] at h
    rw [Option.isSome_none, semicolonText, if_neg Bool.false_ne_true, List.append_nil]
    exact h.span_join hne
  | some t => exact h.span_concat

namespace Node

theorem exact_comment {t : Token} {front : Text} (before : Text) (hk : t.kind.isComment = true)
    (ho : t.kind.Outline t.text) (hne : t.text ≠ [])
    (h : t.span = Span.of (Position.after front) t.text) :
    Exact (front, .comment (.ofToken before t)) := by
  have hcore : (Node.comment (.ofToken before t)).core = t.text := Comment.raw_ofToken before hk ho
  exact ⟨by rwa [hcore], by rw [hcore, ← h]; rfl⟩

end Node

namespace AtRule

/-- The tokens of an at-rule: blanks, the parameters, blanks. -/
theorem exists_parts (before : Text) (first : Token) (ts : List Token) :
    ∃ lead body trail, ts = lead ++ body ++ trail ∧
      (ofTokens before first ts).afterName = join lead ∧
      (ofTokens before first ts).params = join body ∧
      (ofTokens before first ts).between = join trail ∧
      (ofTokens before first ts).span = ⟨first.span.first, (body.getLastD first).span.last⟩ := by
  refine ⟨_, _, _, ?_, rfl, rfl, rfl, rfl⟩
  rw [List.append_assoc, take_append_reverse_takeWhile, List.takeWhile_append_dropWhile]

/-- An at-rule that nothing ends: the blanks after it do not count. -/
theorem exact_unended {front : Text} {first : Token} {ts : List Token} (before between : Text)
    (hk : first.kind = .atWord) (ho : first.kind.Outline first.text)
    (h : Token.Located (Position.after front) (first :: ts))
    (hne : ∀ t ∈ first :: ts, t.text ≠ []) :
    Node.Exact (front, .atRule { ofTokens before first ts with between := between }) := by
  obtain ⟨name, hname⟩ := ho.of_eq hk
  have htext : '@' :: (ofTokens before first ts).name = first.text := by
    rw [hname, ofTokens, hname]
    rfl
  obtain ⟨lead, body, trail, hts, hlead, hbody, -, hspan⟩ := exists_parts before first ts
  have hcore : (Node.atRule { ofTokens before first ts with between := between }).core =
      if join body = [] then first.text else first.text ++ join lead ++ join body := by
    rw [← htext, ← hlead, ← hbody]
    rfl
  subst hts
  rcases List.eq_nil_or_concat' body with rfl | ⟨us, last, rfl⟩
  · -- no parameters: the span is that of the first token
    rw [Token.join_nil, if_pos rfl] at hcore
    refine ⟨?_, ?_⟩
    · rw [hcore]
      exact hne first List.mem_cons_self
    · rw [hcore, ← h.1]
      exact hspan
  · have hlast : join (us ++ [last]) ≠ [] := by
      have := hne last (by simp)
      simp [this]
    have hparams : first.text ++ join lead ++ join (us ++ [last]) =
        join (first :: (lead ++ us ++ [last])) := by simp
    rw [if_neg hlast, hparams] at hcore
    have hsplit : (first :: (lead ++ us ++ [last])) ++ trail =
        first :: (lead ++ (us ++ [last]) ++ trail) := by simp
    rw [← hsplit] at h hne
    have hjoin := (Token.located_append.1 h).1.span_join fun t ht =>
      hne t (List.mem_append_left _ ht)
    rw [List.getLastD_concat] at hspan hjoin
    refine ⟨?_, ?_⟩
    · rw [hcore, Token.join_cons, hname]
      exact List.cons_ne_nil _ _
    · rw [hcore, ← hjoin]
      exact hspan

/-- An at-rule with its semicolon. -/
theorem exact_ended {front : Text} {first semicolon : Token} {ts : List Token} (before : Text)
    (hk : first.kind = .atWord) (ho : first.kind.Outline first.text)
    (h : Token.Located (Position.after front) (first :: (ts ++ [semicolon]))) :
    Node.Exact (front, .atRule { ofTokens before first ts with
      semicolon := true, span.last := semicolon.span.first }) := by
  have hcore : (Node.atRule { ofTokens before first ts with
      semicolon := true, span.last := semicolon.span.first }).core =
        join (first :: ts) ++ [';'] := by
    rw [← heading_ofTokens before ts hk ho]
    rfl
  refine ⟨by simp [hcore], ?_⟩
  rw [hcore]
  exact h.span_concat

end AtRule

/-! ## Drafts -/

namespace Opening

/-- The text before an open block. -/
def before : Opening → Text
  | atRule r => r.before
  | block b => b.before

/-- The text of an open block from its start to its first child. -/
def lead : Opening → Text
  | atRule r => r.heading ++ ['{']
  | block b => b.selector ++ b.between ++ ['{']

theorem print_eq (o : Opening) : o.print = o.before ++ o.lead := by
  cases o <;> simp [before, lead, print]

variable (o : Opening) (children : List Node) (after : Text) (last : Position)

theorem before_close : (o.close children after last).before = o.before := by
  cases o <;> rfl

theorem children_close : (o.close children after last).children = children := by
  cases o <;> rfl

theorem span_close : (o.close children after last).span = ⟨o.start, last⟩ := by
  cases o <;> rfl

theorem lead_close : (o.close children after last).lead = o.lead := by
  cases o <;> rfl

theorem core_close :
    (o.close children after last).core =
      o.lead ++ Node.printList children ++ after ++ ['}'] := by
  cases o <;> simp [close, lead, Node.core, AtRule.heading]

end Opening

namespace Draft

/-- The nodes of the root and of the open blocks are exact, and each open block begins where it is
printed. -/
def ExactFrames (roots : List Node) : List Frame → Prop
  | [] => ∀ pl ∈ Node.placesList [] roots.reverse, Node.Exact pl
  | f :: fs =>
    ExactFrames roots fs ∧
      f.opening.start = Position.after (printFrames roots fs ++ f.opening.before) ∧
      ∀ pl ∈ Node.placesList (printFrames roots fs ++ f.opening.print) f.children.reverse,
        Node.Exact pl

/-- All spans of a draft are exact. -/
def Exact (d : Draft) : Prop := ExactFrames d.roots d.frames

namespace Exact

variable {d d' : Draft}

theorem push (h : d.Exact) {n : Node} (hn : ∀ pl ∈ n.places d.printed, Node.Exact pl) :
    (d.push n).Exact := by
  obtain ⟨roots, frames, spaces, mixins⟩ := d
  have hplaces : ∀ {front : Text} {ns : List Node},
      (∀ pl ∈ Node.placesList front ns.reverse, Node.Exact pl) →
      (∀ pl ∈ n.places (front ++ Node.printList ns.reverse), Node.Exact pl) →
      ∀ pl ∈ Node.placesList front (n :: ns).reverse, Node.Exact pl := by
    intro front ns hns hn pl hpl
    rw [List.reverse_cons, Node.placesList_append, List.mem_append, Node.placesList,
      Node.placesList, List.append_nil] at hpl
    exact hpl.elim (hns pl) (hn pl)
  cases frames with
  | nil => exact hplaces h hn
  | cons f fs => exact ⟨h.1, h.2.1, hplaces h.2.2 hn⟩

/-- A node without children that owns the blanks before it. -/
theorem push_leaf (h : d.Exact) {n : Node} (hleaf : n.children = []) (hbefore : n.before = d.spaces)
    (hn : Node.Exact (d.print, n)) : (d.push n).Exact := by
  refine h.push fun pl hpl => ?_
  rw [Node.places_eq, hleaf, hbefore, Node.placesList, List.mem_singleton] at hpl
  rw [hpl]
  exact hn

theorem enter (h : d.Exact) {o : Opening} (hbefore : o.before = d.spaces)
    (hstart : o.start = Position.after d.print) : (d.enter o).Exact := by
  refine ⟨h, ?_, ?_⟩
  · rw [hstart, hbefore]
    rfl
  · simp [Node.placesList]

theorem close (h : d.Exact) {t : Token} (hclose : d.close t = .ok d')
    (ht : t.span.first = Position.after d.print) : d'.Exact := by
  obtain ⟨f, fs, hf, rfl⟩ := close_eq_ok hclose
  unfold Exact at h
  rw [hf, ExactFrames] at h
  obtain ⟨hfs, hstart, hchildren⟩ := h
  have hd : ({ d with frames := fs } : Draft).Exact := hfs
  refine hd.push fun pl hpl => ?_
  rw [Node.places_eq, Opening.before_close, Opening.children_close, Opening.lead_close,
    List.append_assoc, ← Opening.print_eq, List.mem_cons] at hpl
  rcases hpl with rfl | hpl
  · refine ⟨by simp [Opening.core_close], ?_⟩
    have hprint : d.print = printFrames d.roots fs ++ f.opening.before ++
        (f.opening.lead ++ Node.printList f.children.reverse ++ d.spaces) := by
      rw [print, printed, hf, printFrames, f.opening.print_eq]
      simp only [List.append_assoc]
    rw [Opening.span_close, Opening.core_close, Span.of, List.dropLast_concat,
      ← Position.after_append, hstart, ht, hprint]
    rfl
  · exact hchildren pl hpl

theorem simple (h : d.Exact) {colon : Bool} {first : Token} {ts : List Token}
    {semicolon : Option Token} (hsimple : d.simple colon first ts semicolon = .ok d')
    (hloc : Token.Located (Position.after d.print) (first :: (ts ++ semicolon.toList)))
    (hne : ∀ t ∈ first :: ts, t.text ≠ []) : d'.Exact := by
  have hspan := span_statement hloc hne
  have hfirst : join (first :: ts) ++ semicolonText semicolon.isSome ≠ [] := by
    simp [hne first List.mem_cons_self]
  unfold Draft.simple at hsimple
  split at hsimple
  · cases hsimple
    have hcore : (Node.declaration (.ofTokens d.spaces first ts semicolon)).core =
        join (first :: ts) ++ semicolonText semicolon.isSome := by
      rw [← Declaration.head_append first ts]
      simp only [Node.core, Declaration.ofTokens, List.append_assoc]
    exact h.push_leaf rfl rfl ⟨by rwa [hcore], by rw [hcore, ← hspan]; rfl⟩
  split at hsimple
  · cases hsimple
    exact h.push_leaf rfl rfl ⟨hfirst, hspan⟩
  · cases hsimple

end Exact

/-- **One step keeps all spans exact**, if the tokens it takes stand where the draft ends. -/
theorem Step.exact {d d' : Draft} {taken rest : List Token} (h : Step d taken rest d')
    (hd : d.Exact) (hloc : Token.Located (Position.after d.print) taken)
    (ho : ∀ t ∈ taken, t.kind.Outline t.text) (hne : ∀ t ∈ taken, t.text ≠ []) : d'.Exact := by
  have hfirst : ∀ t ts, taken = t :: ts → t.span.first = Position.after d.print := by
    rintro t ts rfl
    rw [hloc.1]
    rfl
  have hinit : ∀ {us : List Token} {last : Token}, (∀ t ∈ us ++ [last], t.text ≠ []) →
      ∀ t ∈ us, t.text ≠ [] := fun h t ht => h t (List.mem_append_left _ ht)
  cases h with
  | blank kind => exact hd
  | close kind closes => exact hd.close closes (hfirst _ _ rfl)
  | @comment t _ kind =>
    exact hd.push_leaf rfl rfl
      (Node.exact_comment d.spaces kind (ho t (by simp)) (hne t (by simp)) hloc.1)
  | bare kind => exact hd.enter rfl (hfirst _ _ rfl)
  | block begins extent kind =>
    exact Exact.enter (d := { d with mixins := _ }) hd rfl (hfirst _ _ rfl)
  | @ended first semicolon ts _ colon _ begins extent kind simple =>
    exact hd.simple simple hloc (hinit hne)
  | @unended first ts _ e _ begins extent stop core simple =>
    exact hd.simple simple (by simpa using hloc) hne
  | @atRuleAtEnd first ts begins params =>
    have hnode := AtRule.exact_unended d.spaces [] begins.kind (ho first (by simp)) hloc hne
    exact hd.push_leaf rfl rfl hnode
  | @atRuleEnded first semicolon ts _ begins params kind =>
    exact hd.push_leaf rfl rfl (AtRule.exact_ended d.spaces begins.kind (ho first (by simp)) hloc)
  | atRuleOpened begins params kind => exact hd.enter rfl (hfirst _ _ rfl)
  | @atRuleClosed first brace ts _ _ begins params kind closes =>
    have hout := ho first (by simp)
    have hsplit : Token.Located (Position.after d.print) ((first :: ts) ++ [brace]) := hloc
    obtain ⟨hbody, hbrace, -⟩ := Token.located_append.1 hsplit
    have hnode := AtRule.exact_unended d.spaces (AtRule.ofTokens d.spaces first ts).between
      begins.kind hout hbody (hinit hne)
    have hpush := hd.push_leaf (n := .atRule (.ofTokens d.spaces first ts)) rfl rfl hnode
    refine hpush.close closes ?_
    rw [hbrace, print_push_atRule d ts begins.kind hout, Position.after_append]
    rfl

/-- A run keeps all spans exact. -/
theorem Run.exact {d d' : Draft} {ts : List Token} (h : Run d ts d') (hd : d.Exact)
    (hloc : Token.Located (Position.after d.print) ts) (ho : ∀ t ∈ ts, t.kind.Outline t.text)
    (hne : ∀ t ∈ ts, t.text ≠ []) : d'.Exact := by
  induction h with
  | nil => exact hd
  | cons head tail ih =>
    obtain ⟨htaken, hrest⟩ := Token.located_append.1 hloc
    have hout := fun t ht => ho t (List.mem_append_left _ ht)
    rw [← Position.after_append, ← head.print_eq hout] at hrest
    exact ih (head.exact hd htaken hout fun t ht => hne t (List.mem_append_left _ ht)) hrest
      (fun t ht => ho t (List.mem_append_right _ ht)) fun t ht => hne t (List.mem_append_right _ ht)

end Draft

namespace Sheet

theorem exact_of_lexed {s : Text} {ts : List Token} {sheet : Sheet}
    (hlex : Token.Lexed .start .start s ts) (hsheet : ofTokens ts = .ok sheet) :
    ∀ pl ∈ Node.placesList [] sheet.nodes, Node.Exact pl := by
  obtain ⟨d, hrun, hf, rfl⟩ := exists_run hsheet
  have hstart : Draft.start.Exact := by
    simp [Draft.Exact, Draft.ExactFrames, Draft.start, Node.placesList]
  have hd := hrun.exact hstart hlex.located hlex.outlined hlex.text_ne_nil
  rwa [Draft.Exact, hf] at hd

/-- The walk goes strictly forward in the text. -/
theorem pairwise_walk_first {s : Text} {ts : List Token} {sheet : Sheet}
    (hlex : Token.Lexed .start .start s ts) (hsheet : ofTokens ts = .ok sheet) :
    sheet.walk.Pairwise fun a b => a.1.span.first < b.1.span.first :=
  Node.pairwise_walkList (R := fun m n => m.span.first < n.span.first) 0
    (Node.pairwise_first [] sheet.nodes (exact_of_lexed hlex hsheet))

/-- **The spans of nodes are exact.** Whatever is read from a text, each node of the walk, with the text
that is printed before its core, begins at the first and ends at the last character of the core. So
siblings do not overlap, children lie strictly inside their parent, and the walk goes strictly
forward. -/
theorem span_of_tokenize {s : Text} {ts : List Token} {sheet : Sheet}
    (hts : Token.tokenize s = .ok ts) (hsheet : ofTokens ts = .ok sheet) :
    (Node.placesList [] sheet.nodes).map Prod.snd = sheet.walk.map Prod.fst ∧
      (∀ pl ∈ Node.placesList [] sheet.nodes, pl.2.core ≠ [] ∧ pl.1 ++ pl.2.core <+: s ∧
        pl.2.span.first = Position.after pl.1 ∧
        pl.2.span.last = Position.after (pl.1 ++ pl.2.core.dropLast)) ∧
      (∀ n ∈ sheet.walk, n.1.span.first ≤ n.1.span.last) ∧
      sheet.nodes.Pairwise (fun a b => a.span.last < b.span.first) ∧
      (∀ n ∈ sheet.walk, n.1.children.Pairwise (fun a b => a.span.last < b.span.first) ∧
        ∀ c ∈ n.1.children, n.1.span.first < c.span.first ∧ c.span.last < n.1.span.last) ∧
      sheet.walk.Pairwise fun a b => a.1.span.first < b.1.span.first := by
  have hlex := Token.lexed_of_tokensFrom hts
  have hexact := exact_of_lexed hlex hsheet
  have hmap : (Node.placesList [] sheet.nodes).map Prod.snd = sheet.walk.map Prod.fst :=
    Node.map_snd_placesList [] 0 sheet.nodes
  refine ⟨hmap, fun pl hpl => ?_, fun n hn => ?_, Node.pairwise_siblings hexact,
    fun n hn => ?_, pairwise_walk_first hlex hsheet⟩
  · have h := hexact pl hpl
    refine ⟨h.core_ne_nil, (Node.within_placesList _ _ pl hpl).2.trans ?_, h.first_eq, h.last_eq⟩
    have hprint : sheet.print = s := by
      rw [print_eq_join hsheet hlex.outlined, hlex.join_eq]
    rw [← hprint]
    exact List.prefix_append _ _
  · obtain ⟨f, hpl⟩ := Node.exists_place_of_mem_walkList hn []
    exact (hexact _ hpl).first_le_last
  · obtain ⟨f, hpl⟩ := Node.exists_place_of_mem_walkList hn []
    have hchildren : ∀ q ∈ Node.placesList (f ++ n.1.lead) n.1.children, Node.Exact q :=
      fun q hq => hexact q (Node.children_placesList _ _ _ hpl hq)
    exact ⟨Node.pairwise_siblings hchildren, fun c hc =>
      Node.children_inside (hexact _ hpl) hchildren hc⟩

theorem span_of_tokenize_sample :
    ∃ ts sheet, Token.tokenize sampleSource = .ok ts ∧ ofTokens ts = .ok sheet ∧
      sheet.nodes.Pairwise (fun a b => a.span.last < b.span.first) ∧
      sheet.walk.Pairwise (fun a b => a.1.span.first < b.1.span.first) ∧
      sheet.walk.map (·.1.span) =
        [⟨⟨1, 1⟩, ⟨1, 24⟩⟩, ⟨⟨1, 10⟩, ⟨1, 14⟩⟩, ⟨⟨1, 16⟩, ⟨1, 22⟩⟩, ⟨⟨2, 2⟩, ⟨2, 20⟩⟩,
          ⟨⟨2, 7⟩, ⟨2, 13⟩⟩, ⟨⟨2, 15⟩, ⟨2, 18⟩⟩] := by
  obtain ⟨ts, sheet, hts, hsheet, hplaces⟩ := exists_of_eval (s := sampleSource)
    (f := fun _ sheet => (Node.placesList [] sheet.nodes).map fun pl =>
      (⟨Position.after pl.1, Position.after (pl.1 ++ pl.2.core.dropLast)⟩ : Span))
    (a := [⟨⟨1, 1⟩, ⟨1, 24⟩⟩, ⟨⟨1, 10⟩, ⟨1, 14⟩⟩, ⟨⟨1, 16⟩, ⟨1, 22⟩⟩, ⟨⟨2, 2⟩, ⟨2, 20⟩⟩,
      ⟨⟨2, 7⟩, ⟨2, 13⟩⟩, ⟨⟨2, 15⟩, ⟨2, 18⟩⟩])
    (by decide +kernel)
  obtain ⟨hmap, hexact, -, hsiblings, -, hwalk⟩ := span_of_tokenize hts hsheet
  refine ⟨ts, sheet, hts, hsheet, hsiblings, hwalk, ?_⟩
  -- the spans are those of the cores in the printed text, which have been computed
  calc sheet.walk.map (·.1.span) = (sheet.walk.map Prod.fst).map Node.span := by
        rw [List.map_map]; rfl
    _ = (Node.placesList [] sheet.nodes).map (·.2.span) := by
        rw [← hmap, List.map_map]; rfl
    _ = (Node.placesList [] sheet.nodes).map fun pl =>
          ⟨Position.after pl.1, Position.after (pl.1 ++ pl.2.core.dropLast)⟩ := by
        refine List.map_congr_left fun pl hpl => ?_
        obtain ⟨-, -, hfirst, hlast⟩ := hexact pl hpl
        rw [← hfirst, ← hlast]
    _ = _ := hplaces

end Sheet

end LessStyle
