import LessStyle.Proofs.Sheet.Progress

/-!
# What a selector defines

A selector defines a mixin if the words it begins with spell a single class or id and a parenthesis
follows them after blanks (`Mixin.Defines`). The parser also asks for the parenthesis that closes this
one. In the selector of a block it is always there: a statement reaches its opening brace only when all
its parentheses are closed, so the search between them cannot fail
(`Mixin.isSome_inParens?_selector`).
-/

namespace LessStyle

open Text

/-- No statement stops inside parentheses. -/
theorem Statement.exists_extent_eq_succ (p : Token) (opened : List Token) (colon : Bool) (t : Token)
    (ts : List Token) :
    ∃ opened', extent (p :: opened) colon (t :: ts) = (extent opened' colon ts).succ := by
  by_cases hopen : t.kind = .openParen
  · exact ⟨t :: p :: opened, by simp [extent, hopen]⟩
  by_cases hclose : t.kind = .closeParen
  · exact ⟨opened, by simp [extent, hclose]⟩
  · exact ⟨p :: opened, by simp [extent]⟩

/-- Words and blanks belong to a statement. -/
theorem Statement.extent_append_of_plain {ts : List Token}
    (h : ∀ t ∈ ts, t.kind = .word ∨ t.kind = .space) (colon : Bool) (us : List Token) :
    (extent [] colon (ts ++ us)).stop = (extent [] colon us).stop ∧
      (extent [] colon (ts ++ us)).width = ts.length + (extent [] colon us).width := by
  induction ts with
  | nil => simp
  | cons t ts ih =>
    obtain ⟨hstop, hwidth⟩ := ih fun u hu => h u (List.mem_cons_of_mem _ hu)
    have hextent : extent [] colon (t :: ts ++ us) = (extent [] colon (ts ++ us)).succ := by
      rcases h t List.mem_cons_self with hk | hk <;> simp [extent, hk]
    rw [hextent]
    refine ⟨hstop, ?_⟩
    change (extent [] colon (ts ++ us)).width + 1 = _
    rw [hwidth, List.length_cons]
    omega

namespace Mixin

/-! ## Names -/

/-- A piece of a name: a word character, a dash, or a backslash and the character after it. -/
def IsPiece (s : Text) : Prop :=
  (∃ c, s = [c] ∧ (isWord c = true ∨ c = '-')) ∨ ∃ c, s = ['\\', c] ∧ c ≠ '\n'

/-- The name of a class or an id: a dot or a hash sign, then one piece or more. -/
def IsName (s : Text) : Prop :=
  ∃ c pieces, (c = '.' ∨ c = '#') ∧ pieces ≠ [] ∧ (∀ p ∈ pieces, IsPiece p) ∧
    s = c :: pieces.flatten

theorem isNameTail_append {p s : Text} (hp : IsPiece p) :
    isNameTail (p ++ s) = isNameTail s := by
  rcases hp with ⟨c, rfl, hc⟩ | ⟨c, rfl, hc⟩
  · have hne : c ≠ '\\' := by
      rintro rfl
      revert hc
      decide
    rw [List.singleton_append, isNameTail.eq_def]
    split
    · simp_all
    · simp_all
    · simp_all
  · simp [isNameTail, hc]

theorem isNameTail_iff (s : Text) :
    isNameTail s = true ↔ ∃ pieces : List Text, (∀ p ∈ pieces, IsPiece p) ∧ s = pieces.flatten := by
  constructor
  · intro h
    fun_induction isNameTail s with
    | case1 => exact ⟨[], by simp, rfl⟩
    | case2 c s ih =>
      simp only [Bool.and_eq_true, bne_iff_ne] at h
      obtain ⟨pieces, hall, rfl⟩ := ih h.2
      exact ⟨['\\', c] :: pieces, List.forall_mem_cons.2 ⟨.inr ⟨c, rfl, h.1⟩, hall⟩, rfl⟩
    | case3 c s hne ih =>
      simp only [Bool.and_eq_true, Bool.or_eq_true, beq_iff_eq] at h
      obtain ⟨pieces, hall, rfl⟩ := ih h.2
      exact ⟨[c] :: pieces, List.forall_mem_cons.2 ⟨.inl ⟨c, rfl, h.1⟩, hall⟩, rfl⟩
  · rintro ⟨pieces, hall, rfl⟩
    induction pieces with
    | nil => rfl
    | cons p pieces ih =>
      rw [List.flatten_cons, isNameTail_append (hall p (by simp))]
      exact ih fun q hq => hall q (List.mem_cons_of_mem _ hq)

theorem isName_iff (s : Text) : isName s = true ↔ IsName s := by
  have hpiece : ∀ p, IsPiece p → p ≠ [] := by
    rintro p (⟨c, rfl, -⟩ | ⟨c, rfl, -⟩) <;> simp
  cases s with
  | nil => simp [isName, IsName]
  | cons c s =>
    simp only [isName, Bool.and_eq_true, Bool.or_eq_true, beq_iff_eq, Bool.not_eq_true',
      isNameTail_iff, IsName]
    constructor
    · rintro ⟨⟨hc, hs⟩, pieces, hall, rfl⟩
      refine ⟨c, pieces, hc, ?_, hall, rfl⟩
      rintro rfl
      simp at hs
    · rintro ⟨c', pieces, hc, hne, hall, heq⟩
      obtain ⟨rfl, rfl⟩ := List.cons.inj heq
      refine ⟨⟨hc, ?_⟩, pieces, hall, rfl⟩
      obtain ⟨p, pieces, rfl⟩ := List.exists_cons_of_ne_nil hne
      simp [hpiece p (hall p (by simp))]

/-! ## Parentheses -/

/-- The tokens after the words of a name and the blanks that follow them. -/
def afterName (ts : List Token) : List Token :=
  (ts.dropWhile (·.kind = .word)).dropWhile (·.kind = .space)

/-- The tokens begin with the name of a class or an id and a parenthesis. -/
def Defines (ts : List Token) : Prop :=
  IsName (leadingName ts) ∧ (afterName ts).head?.map Token.kind = some .openParen

theorem isPrefix_of_inParens? {depth : Nat} {ts inner : List Token}
    (h : inParens? depth ts = some inner) : inner <+: ts := by
  fun_induction inParens? depth ts generalizing inner with
  | case1 => cases h
  | case2 =>
    cases h
    exact List.nil_prefix
  | case3 | case4 | case5 =>
    rename_i ih
    obtain ⟨us, hus, rfl⟩ := Option.map_eq_some_iff.1 h
    exact List.prefix_cons_inj _ |>.2 (ih hus)

theorem inParens?_of_isTrivia {ts : List Token} (h : ∀ t ∈ ts, t.kind.isTrivia = true)
    (depth : Nat) : inParens? depth ts = none := by
  induction ts with
  | nil => rfl
  | cons t ts ih =>
    have hclose : t.kind ≠ .closeParen := fun hk => by simpa [hk, Token.Kind.isTrivia] using h t
    have hopen : t.kind ≠ .openParen := fun hk => by simpa [hk, Token.Kind.isTrivia] using h t
    simp [inParens?, hclose, ih fun u hu => h u (List.mem_cons_of_mem _ hu)]

/-- Blanks and comments at the end close no parenthesis. -/
theorem isSome_inParens?_of_append {tail : List Token} (htail : ∀ t ∈ tail, t.kind.isTrivia = true)
    (depth : Nat) (ts : List Token) (h : (inParens? depth (ts ++ tail)).isSome = true) :
    (inParens? depth ts).isSome = true := by
  fun_induction inParens? depth ts with
  | case1 depth =>
    rw [List.nil_append, inParens?_of_isTrivia htail] at h
    cases h
  | case2 => rfl
  | case3 | case4 | case5 =>
    rename_i ih
    simp only [Option.isSome_map]
    apply ih
    simpa [inParens?, *] using h

/-- A parenthesis that is closed before a statement stops is closed by one of its tokens. -/
theorem isSome_inParens?_of_extent {ts rest : List Token} {p : Token} {opened : List Token}
    {colon : Bool}
    (hstop : ∀ paren, (Statement.extent (p :: opened) colon (ts ++ rest)).stop ≠ .unclosed paren)
    (hwidth : (Statement.extent (p :: opened) colon (ts ++ rest)).width ≤ ts.length) :
    (inParens? opened.length ts).isSome = true := by
  induction ts generalizing p opened with
  | nil =>
    rw [List.nil_append] at hstop hwidth
    cases rest with
    | nil =>
      rw [Statement.extent, List.getLast?_cons] at hstop
      exact absurd rfl (hstop _)
    | cons t rest =>
      obtain ⟨opened', hextent⟩ := Statement.exists_extent_eq_succ p opened colon t rest
      rw [hextent] at hwidth
      simp [Statement.Extent.succ] at hwidth
  | cons t ts ih =>
    rw [List.length_cons] at hwidth
    by_cases hopen : t.kind = .openParen
    · simp only [List.cons_append, Statement.extent, hopen] at hstop hwidth
      simpa [inParens?, hopen] using ih hstop (Nat.le_of_succ_le_succ hwidth)
    by_cases hclose : t.kind = .closeParen
    · simp only [List.cons_append, Statement.extent, hclose] at hstop hwidth
      cases opened with
      | nil => simp [inParens?, hclose]
      | cons q opened => simpa [inParens?, hclose] using ih hstop (Nat.le_of_succ_le_succ hwidth)
    · simp only [List.cons_append, Statement.extent] at hstop hwidth
      simpa [inParens?, hopen, hclose] using ih hstop (Nat.le_of_succ_le_succ hwidth)

theorem append_afterName (ts : List Token) :
    ∃ us, (∀ t ∈ us, t.kind = .word ∨ t.kind = .space) ∧ us ++ afterName ts = ts := by
  refine ⟨ts.takeWhile (·.kind = .word) ++
    (ts.dropWhile (·.kind = .word)).takeWhile (·.kind = .space), ?_, ?_⟩
  · intro t ht
    rcases List.mem_append.1 ht with ht | ht
    · exact .inl (by simpa using List.all_eq_true.1 List.all_takeWhile t ht)
    · exact .inr (by simpa using List.all_eq_true.1 List.all_takeWhile t ht)
  · rw [List.append_assoc, afterName, List.takeWhile_append_dropWhile,
      List.takeWhile_append_dropWhile]

/-- The tokens define a mixin if the parenthesis after their name is closed. -/
theorem definition?_of_defines {ts : List Token} (h : Defines ts) :
    definition? ts =
      (inParens? 0 (afterName ts).tail).map fun inner => (leadingName ts, paramList inner) := by
  obtain ⟨hname, hparen⟩ := h
  obtain ⟨t, ht, hk⟩ := Option.map_eq_some_iff.1 hparen
  obtain ⟨us, hus⟩ := List.head?_eq_some_iff.1 ht
  have hus' : (ts.dropWhile (·.kind = .word)).dropWhile (·.kind = .space) = t :: us := hus
  rw [definition?, if_pos ((isName_iff _).2 hname), hus, hus']
  simp only [hk, if_true, List.tail_cons]

theorem eq_leadingName_of_definition? {ts : List Token} {name : Text} {params : List Param}
    (h : definition? ts = some (name, params)) (hdef : Defines ts) : name = leadingName ts := by
  rw [definition?_of_defines hdef] at h
  obtain ⟨inner, -, heq⟩ := Option.map_eq_some_iff.1 h
  exact (Prod.mk.inj heq).1.symm

theorem defines_of_definition? {ts : List Token} (h : (definition? ts).isSome = true) :
    Defines ts := by
  unfold definition? at h
  dsimp only at h
  split at h
  · next hname =>
    split at h
    · next t us hus =>
      split at h
      · next hk =>
        refine ⟨(isName_iff _).1 hname, ?_⟩
        rw [afterName, hus]
        simp [hk]
      · cases h
    · cases h
  · cases h

/-- **The selector of a block** has the closing one of the parenthesis after its name: the opening
brace of a block stands outside all parentheses. -/
theorem isSome_inParens?_selector {first brace : Token} {ts rest : List Token} {colon : Bool}
    (hextent : Statement.extentOf first (ts ++ brace :: rest) =
      ⟨ts.length + 1, .openBrace, colon⟩)
    (h : Defines (splitTrivia (first :: ts)).1) :
    (inParens? 0 (afterName (splitTrivia (first :: ts)).1).tail).isSome = true := by
  have hsplit := splitTrivia_append (first :: ts)
  have htail : ∀ t ∈ (splitTrivia (first :: ts)).2, t.kind.isTrivia = true :=
    fun t => isTrivia_of_mem_splitTrivia
  generalize (splitTrivia (first :: ts)).1 = selector at h hsplit ⊢
  generalize (splitTrivia (first :: ts)).2 = tail at hsplit htail
  obtain ⟨t, ht, hk⟩ := Option.map_eq_some_iff.1 h.2
  obtain ⟨inner, hinner⟩ := List.head?_eq_some_iff.1 ht
  obtain ⟨us, hplain, hus⟩ := append_afterName selector
  rw [hinner] at hus ⊢
  subst hus
  have hall : first :: (ts ++ brace :: rest) = us ++ t :: ((inner ++ tail) ++ brace :: rest) := by
    rw [← List.cons_append, ← hsplit]
    simp
  have hlen := congrArg List.length hsplit
  -- only the parenthesis after the name is open behind it
  rw [Statement.extentOf, hall] at hextent
  obtain ⟨hstop, hwidth⟩ := Statement.extent_append_of_plain hplain (Statement.holdsColon first)
    (t :: ((inner ++ tail) ++ brace :: rest))
  rw [hextent] at hstop hwidth
  simp only [Statement.extent, hk] at hstop hwidth
  generalize hclosed : Statement.extent [t] (Statement.holdsColon first)
    ((inner ++ tail) ++ brace :: rest) = e at hstop hwidth
  have hstop' : e.stop = .openBrace := hstop.symm
  have hwidth' : e.width ≤ (inner ++ tail).length := by
    simp only [Statement.Extent.succ, List.length_append, List.length_cons] at hwidth hlen ⊢
    omega
  subst hclosed
  exact isSome_inParens?_of_append htail 0 inner
    (isSome_inParens?_of_extent (fun paren => by rw [hstop']; simp) hwidth')

end Mixin

end LessStyle
