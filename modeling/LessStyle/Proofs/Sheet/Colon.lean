import LessStyle.Proofs.Sheet.Parens

/-!
# The colon of a declaration

A statement is a declaration if one of its colons stands outside parentheses
(`Statement.colon_extent_iff`); the first of these is its top colon (`Token.IsTopColon`). But the
declaration is parted at the first colon of all (`Declaration.Parted`), which may stand inside
parentheses. It is the top colon exactly if all parentheses before it are closed
(`Declaration.Parted.isTopColon_iff`), that is if no colon stands before the top colon.
-/

namespace LessStyle

open Token (join ParensClosed openParens depthAfter)

/-! ## The top colon -/

namespace Token

/-- Behind the tokens `front` the colon is the first one outside all parentheses. -/
structure IsTopColon (front : List Token) (colon : Token) : Prop where
  kind : colon.kind = .colon
  top : openParens front = 0
  first : ∀ a t b, front = a ++ t :: b → t.kind = .colon → openParens a ≠ 0

/-- If a colon stands outside parentheses, there is a first one. -/
theorem exists_isTopColon {a b : List Token} {t : Token} (hk : t.kind = .colon)
    (htop : openParens a = 0) :
    ∃ front top back, a ++ t :: b = front ++ top :: back ∧ IsTopColon front top := by
  induction hlen : a.length using Nat.strongRecOn generalizing a t b with
  | ind len ih =>
  by_cases hfirst : ∀ x u y, a = x ++ u :: y → u.kind = .colon → openParens x ≠ 0
  · exact ⟨a, t, b, rfl, hk, htop, hfirst⟩
  · simp only [Classical.not_forall, ne_eq, Classical.not_not] at hfirst
    obtain ⟨x, u, y, rfl, hu, hx⟩ := hfirst
    have hlt : x.length < len := by
      rw [← hlen, List.length_append, List.length_cons]
      omega
    obtain ⟨front, top, back, heq, hsplit⟩ := ih _ hlt (b := y ++ t :: b) hu hx rfl
    exact ⟨front, top, back, by rw [← heq]; simp, hsplit⟩

/-- Two places in a list are the same, or one stands before the other. -/
theorem split_cases {a b a' b' : List Token} {t t' : Token} (h : a ++ t :: b = a' ++ t' :: b') :
    (a = a' ∧ t = t') ∨ (∃ c, a = a' ++ t' :: c) ∨ ∃ c, a' = a ++ t :: c := by
  rcases List.append_eq_append_iff.1 h with ⟨c, hc, hrest⟩ | ⟨c, hc, hrest⟩
  · cases c with
    | nil => exact .inl ⟨by simp [hc], (List.cons.inj hrest).1⟩
    | cons u c =>
      obtain ⟨rfl, -⟩ := List.cons.inj hrest
      exact .inr (.inr ⟨c, hc⟩)
  · cases c with
    | nil => exact .inl ⟨by simp [hc], (List.cons.inj hrest).1.symm⟩
    | cons u c =>
      obtain ⟨rfl, -⟩ := List.cons.inj hrest
      exact .inr (.inl ⟨c, hc⟩)

/-- There is only one. -/
theorem IsTopColon.unique {a b a' b' : List Token} {t t' : Token} (h : IsTopColon a t)
    (h' : IsTopColon a' t') (heq : a ++ t :: b = a' ++ t' :: b') : a = a' := by
  rcases split_cases heq with ⟨ha, -⟩ | ⟨c, hc⟩ | ⟨c, hc⟩
  · exact ha
  · exact absurd h'.top (h.first a' t' c hc h'.kind)
  · exact absurd h.top (h'.first a t c hc h.kind)

end Token

/-! ## Statements with a colon -/

namespace Statement

/-- **A statement has a colon** if one stands outside the parentheses, unless it had one before. -/
theorem colon_extent_iff (opened : List Token) (colon : Bool) (ts : List Token) :
    (extent opened colon ts).colon = true ↔ colon = true ∨
      ∃ a t b, ts.take (extent opened colon ts).width = a ++ t :: b ∧ t.kind = .colon ∧
        depthAfter opened.length a = 0 := by
  induction ts generalizing opened colon with
  | nil =>
    unfold extent
    split <;> simp
  | cons t ts ih =>
    obtain ⟨rfl, stop, hstop⟩ | ⟨opened', colon', hextent, hlen, hcolon⟩ :=
      extent_cons opened colon t ts
    · simp [hstop]
    · rw [hextent, Extent.colon_succ, Extent.width_succ, List.take_succ_cons, ih, hcolon, or_assoc]
      refine or_congr_right ⟨?_, ?_⟩
      · rintro (⟨rfl, hk⟩ | ⟨a, u, b, htake, hu, hdepth⟩)
        · exact ⟨[], t, _, rfl, hk, rfl⟩
        · refine ⟨t :: a, u, b, by rw [htake, List.cons_append], hu, ?_⟩
          rw [← List.singleton_append, Token.depthAfter_append, ← hlen, hdepth]
      · rintro ⟨a, u, b, htake, hu, hdepth⟩
        cases a with
        | nil =>
          obtain ⟨rfl, -⟩ := List.cons.inj htake
          exact .inl ⟨List.length_eq_zero_iff.1 hdepth, hu⟩
        | cons v a =>
          obtain ⟨rfl, htail⟩ := List.cons.inj htake
          rw [← List.singleton_append, Token.depthAfter_append, ← hlen] at hdepth
          exact .inr ⟨a, u, b, htail, hu, hdepth⟩

/-- A colon of a statement that does not begin with one stands outside its parentheses. -/
theorem Holds.exists_isTopColon {first : Token} {us after : List Token}
    (h : Holds first us after) (hfirst : holdsColon first = false)
    (hcolon : (extentOf first (us ++ after)).colon = true) :
    ∃ front top back, first :: us = front ++ top :: back ∧ Token.IsTopColon front top := by
  obtain ⟨gap, hgap, htake⟩ := h.exists_gap
  obtain ⟨a, t, b, hab, hk, hdepth⟩ := ((colon_extent_iff _ _ _).1 hcolon).resolve_left
    (by simp [hfirst])
  have hgap : t ∉ gap := fun ht => by simpa [hk, Token.Kind.isTrivia] using hgap t ht
  have heq : (first :: us) ++ gap = a ++ t :: b := htake.symm.trans hab
  rcases List.append_eq_append_iff.1 heq with ⟨c, -, hc⟩ | ⟨c, hown, hc⟩
  · exact absurd (by simp [hc]) hgap
  cases c with
  | nil =>
    rw [List.nil_append] at hc
    exact absurd (by simp [← hc]) hgap
  | cons u c =>
    obtain ⟨rfl, -⟩ := List.cons.inj hc
    rw [hown]
    exact Token.exists_isTopColon hk hdepth

end Statement

/-! ## Parting a declaration -/

namespace Declaration

/-- The tokens of a declaration, parted at their first colon: the property up to the first blank,
comment or colon, what stands before the colon, the blanks and comments behind it, and the value. -/
structure Parted (d : Declaration) (own prop lead : List Token) (colon : Token)
    (gap value : List Token) : Prop where
  own_eq : own = prop ++ lead ++ colon :: (gap ++ value)
  prop_eq : d.prop = join prop
  between_eq : d.between = join (lead ++ colon :: gap)
  rawValue_eq : d.rawValue = join value
  kind : colon.kind = .colon
  first : ∀ t ∈ prop ++ lead, t.kind ≠ .colon
  prop_ends : ∀ t ∈ prop, endsProperty t = false
  lead_head : ∀ t ∈ lead.head?, t.kind.isTrivia = true
  gap_isTrivia : ∀ t ∈ gap, t.kind.isTrivia = true
  value_head : ∀ t ∈ value.head?, t.kind.isTrivia = false

theorem cutAt?_of_holdsColon {first : Token} (h : Statement.holdsColon first = false) :
    (if first.kind = .atWord then first.text.cutAt? ':' else none) = none := by
  split
  · next hk =>
    have hmem : first.text.contains ':' = false := by simpa [Statement.holdsColon, hk] using h
    rw [Text.cutAt?, hmem]
    rfl
  · rfl

/-- Tokens with a colon are cut behind the first. -/
theorem exists_throughColon {ts : List Token} {t : Token} (ht : t ∈ ts) (hk : t.kind = .colon) :
    ∃ lead colon rest, throughColon ts = (lead ++ [colon], rest) ∧ ts = lead ++ colon :: rest ∧
      colon.kind = .colon ∧ ∀ u ∈ lead, u.kind ≠ .colon := by
  have hlead : ∀ u ∈ ts.takeWhile (·.kind ≠ .colon), u.kind ≠ .colon :=
    fun u hu => by simpa using List.all_eq_true.1 List.all_takeWhile u hu
  have hhead := List.head?_dropWhile_not (·.kind ≠ .colon) ts
  have hts := List.takeWhile_append_dropWhile (p := fun u : Token => u.kind ≠ .colon) (l := ts)
  cases hrest : ts.dropWhile (·.kind ≠ .colon) with
  | nil =>
    rw [hrest, List.append_nil] at hts
    exact absurd hk (hlead t (hts.symm ▸ ht))
  | cons colon rest =>
    rw [hrest] at hts hhead
    refine ⟨_, colon, rest, ?_, hts.symm, by simpa using hhead, hlead⟩
    simp only [throughColon, hrest, List.take_succ_cons, List.take_zero, List.drop_succ_cons,
      List.drop_zero]

theorem head_of_holdsColon {first : Token} (us : List Token)
    (hfirst : Statement.holdsColon first = false) {lead rest : List Token}
    (h : throughColon ((first :: us).dropWhile (!endsProperty ·)) = (lead, rest)) :
    head first us =
      ⟨join ((first :: us).takeWhile (!endsProperty ·)),
        join (lead ++ rest.takeWhile (·.kind.isTrivia)), [], rest.dropWhile (·.kind.isTrivia)⟩ := by
  rw [head, cutAt?_of_holdsColon hfirst]
  simp only [h]

theorem kind_of_endsProperty {t : Token} (h : endsProperty t = false) : t.kind ≠ .colon := by
  intro hk
  simp [endsProperty, hk] at h

/-- A declaration with a colon among its tokens is parted there. -/
theorem exists_parted (before : Text) {first : Token} (us : List Token) (semicolon : Option Token)
    (hfirst : Statement.holdsColon first = false) {t : Token} (ht : t ∈ first :: us)
    (hk : t.kind = .colon) :
    ∃ prop lead colon gap value,
      (ofTokens before first us semicolon).Parted (first :: us) prop lead colon gap value := by
  have hown := List.takeWhile_append_dropWhile (p := (!endsProperty ·)) (l := first :: us)
  have hprop : ∀ u ∈ (first :: us).takeWhile (!endsProperty ·), endsProperty u = false :=
    fun u hu => by simpa using List.all_eq_true.1 List.all_takeWhile u hu
  have htail : t ∈ (first :: us).dropWhile (!endsProperty ·) := by
    rw [← hown] at ht
    exact (List.mem_append.1 ht).resolve_left fun hp => kind_of_endsProperty (hprop t hp) hk
  obtain ⟨lead, colon, rest, hthrough, htail, hcolon, hlead⟩ := exists_throughColon htail hk
  have hhead := head_of_holdsColon us hfirst hthrough
  have hrest := List.takeWhile_append_dropWhile (p := fun u : Token => u.kind.isTrivia) (l := rest)
  refine ⟨(first :: us).takeWhile (!endsProperty ·), lead, colon, rest.takeWhile (·.kind.isTrivia),
    rest.dropWhile (·.kind.isTrivia), ?_, ?_, ?_, ?_, hcolon, ?_, hprop, ?_,
    List.all_eq_true.1 List.all_takeWhile, ?_⟩
  · rw [hrest, List.append_assoc, ← htail, hown]
  · simp only [ofTokens, hhead]
  · simp only [ofTokens, hhead, List.append_assoc, List.singleton_append]
  · simp only [ofTokens, hhead, List.nil_append]
  · intro u hu
    rcases List.mem_append.1 hu with hu | hu
    · exact kind_of_endsProperty (hprop u hu)
    · exact hlead u hu
  · intro u hu
    -- the property ends at a blank, a comment or a colon
    have hends : endsProperty u = true := by
      have hstop := List.head?_dropWhile_not (!endsProperty ·) (first :: us)
      rw [htail, List.head?_append, Option.mem_def.1 hu] at hstop
      simpa using hstop
    simpa [endsProperty, hlead u (List.mem_of_mem_head? hu)] using hends
  · intro u hu
    have hstop := List.head?_dropWhile_not (·.kind.isTrivia) rest
    rw [Option.mem_def.1 hu] at hstop
    simpa using hstop

theorem Parted.takeWhile_eq {d : Declaration} {own prop lead gap value : List Token}
    {colon : Token} (h : d.Parted own prop lead colon gap value) :
    own.takeWhile (·.kind ≠ .colon) = prop ++ lead := by
  rw [h.own_eq, List.takeWhile_append_of_pos (by simpa using h.first)]
  simp [h.kind]

/-- **The colon of a declaration is its top colon** exactly if the parentheses before it are
closed. -/
theorem Parted.isTopColon_iff {d : Declaration} {own prop lead gap value : List Token}
    {colon : Token} (h : d.Parted own prop lead colon gap value) :
    Token.IsTopColon (prop ++ lead) colon ↔ ParensClosed (prop ++ lead) := by
  rw [Token.parensClosed_iff]
  refine ⟨Token.IsTopColon.top, fun hopen => ⟨h.kind, hopen, ?_⟩⟩
  intro a t b heq hk
  exact absurd hk (h.first t (by simp [heq]))

/-- It is the top colon exactly if no colon stands before that. -/
theorem Parted.isTopColon_iff_forall {d : Declaration} {own prop lead gap value : List Token}
    {colon : Token} (h : d.Parted own prop lead colon gap value) {front back : List Token}
    {top : Token} (heq : own = front ++ top :: back) (htop : Token.IsTopColon front top) :
    Token.IsTopColon (prop ++ lead) colon ↔ ∀ t ∈ front, t.kind ≠ .colon := by
  rw [h.own_eq] at heq
  constructor
  · intro hcolon
    obtain rfl := hcolon.unique htop heq
    exact h.first
  · intro hfront
    -- both are the first colon of all
    rcases Token.split_cases heq with ⟨ha, rfl⟩ | ⟨c, hc⟩ | ⟨c, hc⟩
    · rwa [ha]
    · exact absurd htop.kind (h.first top (by simp [hc]))
    · exact absurd h.kind (hfront colon (by simp [hc]))

end Declaration

namespace Sheet

/-- The declarations of a sheet come from tokens with a top colon, and are parted. -/
theorem exists_parted {s : Text} {ts : List Token} {sheet : Sheet}
    (hts : Token.tokenize s = .ok ts) (hsheet : ofTokens ts = .ok sheet) {d : Declaration}
    {depth : Nat} (hd : (.declaration d, depth) ∈ sheet.walk) :
    ∃ first us, (Node.declaration d).tokens ts = first :: us ∧
      (Statement.holdsColon first = false →
        (∃ front top back, first :: us = front ++ top :: back ∧ Token.IsTopColon front top) ∧
        ∃ prop lead colon gap value, d.Parted (first :: us) prop lead colon gap value) := by
  have hlex := Token.lexed_of_tokensFrom hts
  obtain ⟨_, after, -, -, horigin⟩ := (exists_origin hsheet _ hd).exists_tokens hlex
  generalize (Node.declaration d).tokens ts = own at horigin ⊢
  cases horigin with
  | @declaration before semicolon first us _ holds colon =>
    refine ⟨first, us, rfl, fun hfirst => ?_⟩
    obtain ⟨front, top, back, heq, htop⟩ := holds.exists_isTopColon hfirst colon
    have hmem : top ∈ first :: us := by simp [heq]
    exact ⟨⟨front, top, back, heq, htop⟩,
      Declaration.exists_parted before us semicolon hfirst hmem htop.kind⟩

/-- **Where declarations are parted.** Let a declaration of a sheet not begin with an at-word that
holds a colon. Its tokens are parted at their first colon, and have a top colon. The declaration is
parted at the top colon exactly if all parentheses before the parting colon are closed, and exactly if
no colon stands before the top colon. -/
theorem colon_of_tokenize {s : Text} {ts : List Token} {sheet : Sheet}
    (hts : Token.tokenize s = .ok ts) (hsheet : ofTokens ts = .ok sheet) {d : Declaration}
    {depth : Nat} (hd : (.declaration d, depth) ∈ sheet.walk) :
    ∃ first us, (Node.declaration d).tokens ts = first :: us ∧
      (Statement.holdsColon first = false →
        ∃ prop lead colon gap value, d.Parted (first :: us) prop lead colon gap value ∧
          (Token.IsTopColon (prop ++ lead) colon ↔ ParensClosed (prop ++ lead)) ∧
          ∃ front top back, first :: us = front ++ top :: back ∧ Token.IsTopColon front top ∧
            (Token.IsTopColon (prop ++ lead) colon ↔ ∀ t ∈ front, t.kind ≠ .colon)) := by
  obtain ⟨first, us, htokens, h⟩ := exists_parted hts hsheet hd
  refine ⟨first, us, htokens, fun hfirst => ?_⟩
  obtain ⟨⟨front, top, back, heq, htop⟩, prop, lead, colon, gap, value, hparted⟩ := h hfirst
  exact ⟨prop, lead, colon, gap, value, hparted, hparted.isTopColon_iff, front, top, back, heq, htop,
    hparted.isTopColon_iff_forall heq htop⟩

/-- The only declaration of a text, with the number of parentheses that are open before the first of
its colons. -/
theorem exists_declaration {s : Text} {n : Nat}
    (h : ((Token.tokenize s).toOption.bind fun ts => (ofTokens ts).toOption.map fun sheet =>
      sheet.walk.filterMap fun
        | (.declaration d, _) =>
          let own := (Node.declaration d).tokens ts
          some (own.head?.map Statement.holdsColon, openParens (own.takeWhile (·.kind ≠ .colon)))
        | _ => none) = some [(some false, n)]) :
    ∃ ts sheet d depth, Token.tokenize s = .ok ts ∧ ofTokens ts = .ok sheet ∧
      (.declaration d, depth) ∈ sheet.walk ∧
      ((Node.declaration d).tokens ts).head?.map Statement.holdsColon = some false ∧
      openParens (((Node.declaration d).tokens ts).takeWhile (·.kind ≠ .colon)) = n := by
  obtain ⟨ts, sheet, hts, hsheet, heval⟩ := exists_of_eval h
  obtain ⟨node, hmem, hnode⟩ := List.mem_filterMap.1 (heval ▸ List.mem_singleton_self _)
  split at hnode
  · next d depth =>
    obtain ⟨hfirst, hopen⟩ := Prod.mk.inj (Option.some.inj hnode)
    exact ⟨ts, sheet, d, depth, hts, hsheet, hmem, hfirst, hopen⟩
  · cases hnode

theorem colon_of_tokenize_comment :
    ∃ ts sheet d depth first us prop lead colon gap value,
      Token.tokenize "a(@b)/*:*/:c('':d)".toList = .ok ts ∧ ofTokens ts = .ok sheet ∧
      (.declaration d, depth) ∈ sheet.walk ∧ (Node.declaration d).tokens ts = first :: us ∧
      Statement.holdsColon first = false ∧ d.Parted (first :: us) prop lead colon gap value ∧
      Token.IsTopColon (prop ++ lead) colon := by
  obtain ⟨ts, sheet, d, depth, hts, hsheet, hd, hhead, hopen⟩ :=
    exists_declaration (s := "a(@b)/*:*/:c('':d)".toList) (n := 0) (by decide +kernel)
  obtain ⟨first, us, htokens, h⟩ := colon_of_tokenize hts hsheet hd
  rw [htokens] at hhead hopen
  have hfirst : Statement.holdsColon first = false := Option.some.inj hhead
  obtain ⟨prop, lead, colon, gap, value, hparted, hiff, -⟩ := h hfirst
  rw [hparted.takeWhile_eq] at hopen
  exact ⟨ts, sheet, d, depth, first, us, prop, lead, colon, gap, value, hts, hsheet, hd, htokens,
    hfirst, hparted, hiff.2 ((Token.parensClosed_iff _).2 hopen)⟩

/-- A declaration can be parted inside parentheses. -/
theorem exists_parted_in_parens :
    ∃ ts sheet d depth first us prop lead colon gap value,
      Token.tokenize "a('':b):c;".toList = .ok ts ∧ ofTokens ts = .ok sheet ∧
      (.declaration d, depth) ∈ sheet.walk ∧ (Node.declaration d).tokens ts = first :: us ∧
      Statement.holdsColon first = false ∧ d.Parted (first :: us) prop lead colon gap value ∧
      ¬ Token.IsTopColon (prop ++ lead) colon := by
  obtain ⟨ts, sheet, d, depth, hts, hsheet, hd, hhead, hopen⟩ :=
    exists_declaration (s := "a('':b):c;".toList) (n := 1) (by decide +kernel)
  obtain ⟨first, us, htokens, h⟩ := exists_parted hts hsheet hd
  rw [htokens] at hhead hopen
  have hfirst : Statement.holdsColon first = false := Option.some.inj hhead
  obtain ⟨-, prop, lead, colon, gap, value, hparted⟩ := h hfirst
  refine ⟨ts, sheet, d, depth, first, us, prop, lead, colon, gap, value, hts, hsheet, hd, htokens,
    hfirst, hparted, fun htop => ?_⟩
  rw [hparted.takeWhile_eq, htop.top] at hopen
  cases hopen

end Sheet

end LessStyle
