import LessStyle.Proofs.Token.Bytes
import LessStyle.Proofs.Token.Closing

/-!
# Kinds of pieces

`Piece cx c s kind n` says what begins with the character `c` before the text `s`: there is a
constructor for every way in which a token can begin, with all that is tested on the way to it. The
lexer answers with a kind and a width exactly if there is such a piece (`lexeme_eq_ok_iff`).

A piece that ends before the end of the text stays the same if more text follows (`Piece.append`). Only
an opening parenthesis looks further than its own end. It could become the first character of a longer
token if the text is plain to its end, and what follows is not.
-/

namespace LessStyle.Token

open Text

/-! ## Pieces -/

/-- The characters that are tokens of their own. -/
def singles : List (Char × Kind) :=
  [('{', .openBrace), ('}', .closeBrace), (':', .colon), (';', .semicolon), (',', .word),
    (')', .closeParen)]

/-- The text after an opening parenthesis begins with plain characters and a closing one, and is
neither empty nor that of a rest parameter. -/
def Collapses (s : Text) : Prop :=
  ∃ inner r, s = inner ++ ')' :: r ∧ (∀ c ∈ inner, isPlain c = true) ∧ inner ≠ [] ∧
    inner ≠ ['.', '.', '.']

/-- The token that begins with `c` before the text `s`: its kind, and how many characters of `s`
belong to it. -/
inductive Piece (cx : Context) : Char → Text → Kind → Nat → Prop where
  | space {c : Char} {s : Text} (blank : isBlank c = true) :
      Piece cx c s .space (s.takeWhile isBlank).length
  | single {c : Char} {s : Text} {kind : Kind} (mem : (c, kind) ∈ singles) : Piece cx c s kind 0
  /-- The parentheses of an address. -/
  | url {s : Text} {n : Nat} (opens : opensUrl cx s = true)
      (close : closing? ')' false s = some n) : Piece cx '(' s .brackets n
  /-- Other parentheses with plain contents. -/
  | brackets {inner r : Text} (opens : opensUrl cx (inner ++ ')' :: r) = false)
      (plain : ∀ c ∈ inner, isPlain c = true) (nonempty : inner ≠ [])
      (dots : inner ≠ ['.', '.', '.']) :
      Piece cx '(' (inner ++ ')' :: r) .brackets (inner.length + 1)
  | openParen {s : Text} (opens : opensUrl cx s = false) (structured : ¬ Collapses s) :
      Piece cx '(' s .openParen 0
  | string {q : Char} {s : Text} {n : Nat} (quote : q = '\'' ∨ q = '"')
      (close : closing? q false s = some n) : Piece cx q s .string n
  | escape {s : Text} : Piece cx '\\' s .word (escapeWidth s)
  | interpolation {r : Text} {n : Nat} (close : through? '}' r = some n) :
      Piece cx '@' ('{' :: r) .word (n + 1)
  | param {s : Text} (brace : s.head? ≠ some '{') (depth : 0 < cx.depth) :
      Piece cx '@' s (.param (endsWith ('@' :: s.take (widthUntil endsAtWord s)) ['.', '.', '.']))
        (widthUntil endsAtWord s)
  | atWord {s : Text} (brace : s.head? ≠ some '{') (depth : cx.depth = 0) :
      Piece cx '@' s .atWord (widthUntil endsAtWord s)
  | blockComment {r : Text} {n : Nat} (close : find? ['*', '/'] r = some n) :
      Piece cx '/' ('*' :: r) .blockComment (n + 3)
  | lineComment {r : Text} :
      Piece cx '/' ('/' :: r) .lineComment (1 + (r.takeWhile (· != '\n')).length)
  /-- A word that begins with a slash. -/
  | slash {s : Text} (star : s.head? ≠ some '*') (second : s.head? ≠ some '/') :
      Piece cx '/' s .word (widthUntil endsWord s)
  | word {c : Char} {s : Text} (blank : isBlank c = false) (mark : c ∉ Scanner.marks) :
      Piece cx c s .word (widthUntil endsWord s)

variable {cx : Context} {c : Char} {r s x : Text} {kind : Kind} {n : Nat}

/-- Where the plain characters after a parenthesis end. -/
theorem collapses_iff (s : Text) :
    Collapses s ↔ (s.dropWhile isPlain).head? = some ')' ∧ s.takeWhile isPlain ≠ [] ∧
      s.takeWhile isPlain ≠ ['.', '.', '.'] := by
  constructor
  · rintro ⟨inner, r, rfl, hplain, hne, hdots⟩
    rw [List.takeWhile_append_of_pos hplain, List.dropWhile_append_of_pos hplain]
    simpa [isPlain] using ⟨hne, hdots⟩
  · rintro ⟨hclose, hne, hdots⟩
    obtain ⟨r, hr⟩ := List.head?_eq_some_iff.1 hclose
    refine ⟨s.takeWhile isPlain, r, ?_, List.all_eq_true.1 List.all_takeWhile, hne, hdots⟩
    rw [← hr, List.takeWhile_append_dropWhile]

theorem parenLexeme_of_not_collapses (hopens : opensUrl cx s = false) (h : ¬ Collapses s) :
    parenLexeme cx s = .ok (.openParen, 0) := by
  rw [collapses_iff] at h
  rw [parenLexeme, if_neg (by simp [hopens])]
  dsimp only
  rw [drop_length_takeWhile]
  split
  · next r hr =>
    rw [hr] at h
    rw [if_pos]
    by_contra hinner
    simp_all
  · rfl

theorem parenLexeme_of_plain {inner : Text} (hopens : opensUrl cx (inner ++ ')' :: r) = false)
    (hplain : ∀ c ∈ inner, isPlain c = true) (hne : inner ≠ []) (hdots : inner ≠ ['.', '.', '.']) :
    parenLexeme cx (inner ++ ')' :: r) = .ok (.brackets, inner.length + 1) := by
  rw [parenLexeme, if_neg (by simp [hopens])]
  dsimp only
  rw [drop_length_takeWhile, List.takeWhile_append_of_pos hplain,
    List.dropWhile_append_of_pos hplain]
  simp [isPlain, hne, hdots]

theorem piece_of_parenLexeme (h : parenLexeme cx s = .ok (kind, n)) : Piece cx '(' s kind n := by
  cases hopens : opensUrl cx s with
  | true =>
    rw [parenLexeme, if_pos hopens] at h
    split at h
    · next k hk =>
      cases h
      exact .url hopens hk
    · cases h
  | false =>
    by_cases hcollapses : Collapses s
    · obtain ⟨inner, r, rfl, hplain, hne, hdots⟩ := hcollapses
      rw [parenLexeme_of_plain hopens hplain hne hdots] at h
      cases h
      exact .brackets hopens hplain hne hdots
    · rw [parenLexeme_of_not_collapses hopens hcollapses] at h
      cases h
      exact .openParen hopens hcollapses

theorem piece_of_lexeme (h : lexeme cx c s = .ok (kind, n)) : Piece cx c s kind n := by
  by_cases hblank : isBlank c = true
  · rw [Scanner.lexeme_of_isBlank cx s hblank] at h
    cases h
    exact .space hblank
  have hblank' : isBlank c = false := by simpa using hblank
  by_cases hc : c ∈ Scanner.marks
  · simp only [Scanner.marks, List.mem_cons, List.not_mem_nil, or_false] at hc
    rcases hc with rfl | rfl | rfl | rfl | rfl | rfl | rfl | rfl | rfl | rfl | rfl | rfl
    · cases h
      exact .single (by decide)
    · cases h
      exact .single (by decide)
    · cases h
      exact .single (by decide)
    · cases h
      exact .single (by decide)
    · cases h
      exact .single (by decide)
    · exact piece_of_parenLexeme h
    · cases h
      exact .single (by decide)
    · obtain ⟨rfl, k, hk, rfl⟩ := closed_eq_ok h
      exact .string (.inl rfl) hk
    · obtain ⟨rfl, k, hk, rfl⟩ := closed_eq_ok h
      exact .string (.inr rfl) hk
    · cases h
      exact .escape
    · by_cases hbrace : s.head? = some '{'
      · obtain ⟨r, rfl⟩ := List.head?_eq_some_iff.1 hbrace
        obtain ⟨rfl, k, hk, rfl⟩ := closed_eq_ok h
        exact .interpolation hk
      · rw [Scanner.lexeme_at cx hbrace] at h
        split at h
        · next hdepth =>
          cases h
          exact .param hbrace hdepth
        · next hdepth =>
          cases h
          exact .atWord hbrace (by omega)
    · by_cases hstar : s.head? = some '*'
      · obtain ⟨r, rfl⟩ := List.head?_eq_some_iff.1 hstar
        obtain ⟨rfl, k, hk, rfl⟩ := closed_eq_ok h
        exact .blockComment hk
      by_cases hslash : s.head? = some '/'
      · obtain ⟨r, rfl⟩ := List.head?_eq_some_iff.1 hslash
        cases h
        exact .lineComment
      · rw [Scanner.lexeme_slash cx hstar hslash] at h
        cases h
        exact .slash hstar hslash
  · rw [Scanner.lexeme_of_notMem_marks cx s hblank' hc] at h
    cases h
    exact .word hblank' hc

theorem Piece.lexeme_eq (h : Piece cx c s kind n) : lexeme cx c s = .ok (kind, n) := by
  cases h with
  | space blank => exact Scanner.lexeme_of_isBlank cx s blank
  | single mem =>
    simp only [singles, List.mem_cons, Prod.mk.injEq, List.not_mem_nil, or_false] at mem
    rcases mem with ⟨rfl, rfl⟩ | ⟨rfl, rfl⟩ | ⟨rfl, rfl⟩ | ⟨rfl, rfl⟩ | ⟨rfl, rfl⟩ | ⟨rfl, rfl⟩ <;>
      rfl
  | url opens close =>
    change parenLexeme cx s = _
    rw [parenLexeme, if_pos opens, close]
  | brackets opens plain nonempty dots => exact parenLexeme_of_plain opens plain nonempty dots
  | openParen opens structured => exact parenLexeme_of_not_collapses opens structured
  | string quote close =>
    rcases quote with rfl | rfl
    · change closed _ _ _ _ = _
      rw [close]
      rfl
    · change closed _ _ _ _ = _
      rw [close]
      rfl
  | escape => rfl
  | interpolation close =>
    change closed _ _ _ _ = _
    rw [close]
    rfl
  | param brace depth => rw [Scanner.lexeme_at cx brace, if_pos depth]
  | atWord brace depth => rw [Scanner.lexeme_at cx brace, if_neg (by omega)]
  | blockComment close =>
    change closed _ _ _ _ = _
    rw [close]
    rfl
  | lineComment => rfl
  | slash star second => exact Scanner.lexeme_slash cx star second
  | word blank mark => exact Scanner.lexeme_of_notMem_marks cx s blank mark

/-- **The lexer answers with the pieces.** -/
theorem lexeme_eq_ok_iff : lexeme cx c s = .ok (kind, n) ↔ Piece cx c s kind n :=
  ⟨piece_of_lexeme, Piece.lexeme_eq⟩

/-! ## More text behind a piece -/

theorem takeWhile_append_of_length_lt {p : Char → Bool} (h : (s.takeWhile p).length < s.length)
    (x : Text) : (s ++ x).takeWhile p = s.takeWhile p := by
  rw [List.takeWhile_append, if_neg (by omega)]

theorem head?_append_of_length_pos (h : 0 < s.length) (x : Text) : (s ++ x).head? = s.head? := by
  obtain ⟨d, s, rfl⟩ := List.exists_cons_of_ne_nil (List.ne_nil_of_length_pos h)
  rfl

theorem opensUrl_append (cx : Context) (h : 0 < s.length) (x : Text) :
    opensUrl cx (s ++ x) = opensUrl cx s := by
  obtain ⟨d, s, rfl⟩ := List.exists_cons_of_ne_nil (List.ne_nil_of_length_pos h)
  rfl

/-- A width that ends where a test of the next two characters says so. -/
theorem widthUntil_append {stop : Text → Bool}
    (hcons : ∀ c s x, 0 < s.length → stop (c :: (s ++ x)) = stop (c :: s))
    (hlast : ∀ c x, stop [c] = true → stop (c :: x) = true)
    (h : widthUntil stop s < s.length) (x : Text) :
    widthUntil stop (s ++ x) = widthUntil stop s := by
  induction s with
  | nil => simp at h
  | cons c s ih =>
    rw [widthUntil] at h
    rw [List.cons_append, widthUntil, widthUntil]
    cases s with
    | nil =>
      cases hstop : stop [c] with
      | true => simp [hlast c x hstop]
      | false => simp [hstop] at h
    | cons d s =>
      rw [hcons c (d :: s) x (by simp)]
      cases hstop : stop (c :: d :: s) with
      | true => simp
      | false =>
        rw [hstop] at h
        simpa using ih (by simpa using h)

theorem widthUntil_endsWord_append (h : widthUntil endsWord s < s.length) (x : Text) :
    widthUntil endsWord (s ++ x) = widthUntil endsWord s := by
  refine widthUntil_append (fun c s x hs => ?_) (fun c x hc => ?_) h x
  · rw [endsWord_cons, endsWord_cons, head?_append_of_length_pos hs]
  · rw [endsWord_cons] at hc ⊢
    simp_all

theorem widthUntil_endsAtWord_append (h : widthUntil endsAtWord s < s.length) (x : Text) :
    widthUntil endsAtWord (s ++ x) = widthUntil endsAtWord s := by
  refine widthUntil_append (fun c s x hs => ?_) (fun c x hc => ?_) h x
  · rw [endsAtWord, endsAtWord, startsComment_cons, startsComment_cons,
      head?_append_of_length_pos hs]
  · rw [endsAtWord, startsComment_cons] at hc ⊢
    simp_all

theorem escapeWidth_append (h : escapeWidth s < s.length) (x : Text) :
    escapeWidth (s ++ x) = escapeWidth s := by
  have hle : (s.takeWhile (· == '\\')).length ≤ escapeWidth s := by
    unfold escapeWidth
    dsimp only
    split
    · split
      · split <;> omega
      · omega
    · omega
  have hrun : (s ++ x).takeWhile (· == '\\') = s.takeWhile (· == '\\') :=
    takeWhile_append_of_length_lt (by omega) x
  unfold escapeWidth
  rw [hrun]
  dsimp only
  have hdrop : s.drop (s.takeWhile (· == '\\')).length ≠ [] := by
    rw [Ne, List.drop_eq_nil_iff]
    omega
  obtain ⟨d, t, ht⟩ := List.exists_cons_of_ne_nil hdrop
  rw [List.drop_append_of_le_length (by omega), ht]
  rfl

/-- Plain text behind a parenthesis, or text that is not plain before it, makes no token of it. -/
theorem not_collapses_append (h : ¬ Collapses s)
    (hx : (∃ d ∈ s, isPlain d = false) ∨ ∀ d ∈ x, isPlain d = true) : ¬ Collapses (s ++ x) := by
  rintro ⟨inner, r, heq, hplain, hne, hdots⟩
  rcases List.append_eq_append_iff.1 heq with ⟨t, rfl, rfl⟩ | ⟨t, rfl, ht⟩
  · -- the closing parenthesis stands in the text behind
    rcases hx with ⟨d, hd, hnot⟩ | hall
    · rw [hplain d (List.mem_append_left t hd)] at hnot
      cases hnot
    · have := hall ')' (by simp)
      simp [isPlain] at this
  · cases t with
    | nil =>
      rw [List.nil_append] at ht
      rw [List.append_nil] at hx
      rcases hx with ⟨d, hd, hnot⟩ | hall
      · rw [hplain d hd] at hnot
        cases hnot
      · have := hall ')' (by rw [← ht]; simp)
        simp [isPlain] at this
    | cons d t =>
      obtain ⟨rfl, -⟩ := List.cons.inj ht
      exact h ⟨inner, t, rfl, hplain, hne, hdots⟩

/-- **A piece that ends before the end of the text** stays the same if more text follows. -/
theorem Piece.append (h : Piece cx c r kind n) (hn : n < r.length)
    (hx : (∃ d ∈ r, isPlain d = false) ∨ ∀ d ∈ x, isPlain d = true) :
    Piece cx c (r ++ x) kind n := by
  have hpos : 0 < r.length := by omega
  cases h with
  | space blank =>
    rw [← takeWhile_append_of_length_lt hn x]
    exact .space blank
  | single mem => exact .single mem
  | url opens close =>
    exact .url (by rwa [opensUrl_append cx hpos]) (closing?_append_of_eq_some (by decide) close x)
  | @brackets inner r opens plain nonempty dots =>
    rw [← opensUrl_append cx hpos x, List.append_assoc, List.cons_append] at opens
    rw [List.append_assoc, List.cons_append]
    exact .brackets opens plain nonempty dots
  | openParen opens structured =>
    exact .openParen (by rwa [opensUrl_append cx hpos]) (not_collapses_append structured hx)
  | string quote close =>
    have hq : c ≠ '\\' := by rcases quote with rfl | rfl <;> decide
    exact .string quote (closing?_append_of_eq_some hq close x)
  | escape =>
    rw [← escapeWidth_append hn x]
    exact .escape
  | interpolation close => exact .interpolation (through?_append_of_eq_some close x)
  | param brace depth =>
    have hwidth := widthUntil_endsAtWord_append hn x
    have hpiece : Piece cx '@' (r ++ x) _ _ :=
      .param (by rwa [head?_append_of_length_pos hpos]) depth
    rwa [hwidth, List.take_append_of_le_length (by omega)] at hpiece
  | atWord brace depth =>
    rw [← widthUntil_endsAtWord_append hn x]
    exact .atWord (by rwa [head?_append_of_length_pos hpos]) depth
  | blockComment close => exact .blockComment (find?_append_of_eq_some close x)
  | @lineComment r =>
    have hlt : (r.takeWhile (· != '\n')).length < r.length := by
      rw [List.length_cons] at hn
      omega
    rw [← takeWhile_append_of_length_lt hlt x]
    exact .lineComment
  | slash star second =>
    rw [← widthUntil_endsWord_append hn x]
    refine .slash ?_ ?_ <;> rwa [head?_append_of_length_pos hpos]
  | word blank mark =>
    rw [← widthUntil_endsWord_append hn x]
    exact .word blank mark

/-! ## The context of a piece -/

/-- The context after tokens. -/
def Context.through (cx : Context) (ts : List Token) : Context :=
  ts.foldl (fun cx t => cx.step t.kind t.text) cx

@[simp] theorem Context.through_nil (cx : Context) : cx.through [] = cx := rfl

@[simp] theorem Context.through_cons (cx : Context) (t : Token) (ts : List Token) :
    cx.through (t :: ts) = (cx.step t.kind t.text).through ts := rfl

end LessStyle.Token
