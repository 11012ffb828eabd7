import LessStyle.Proofs.Text.Position
import LessStyle.Proofs.Token.Lexeme

/-!
# Pieces that are never closed

The lexer fails in one way only: a piece is opened and the text ends before it is closed. There are
five such pieces (`Enclosure.all`), each with its opening and its closing mark. A failure is reported at
the opening mark, and no closing mark stands behind it. To put the closing mark at the end of the text
mends it (`tokenize_fault`).

For the second half, the tokens before the failure have to stay as they are. They end before the text
does, so `Piece.append` applies to each: what is opened at the failure is not plain, or what closes it
is.
-/

namespace LessStyle.Token

open Text

/-! ## Enclosures -/

/-- A piece of text from an opening mark to a closing mark. -/
structure Enclosure where
  opener : Text
  closer : Text
  /-- The kind of the token. -/
  kind : Kind
  /-- The fault if the closing mark is missing. -/
  fault : Fault
  /-- A backslash escapes the closing mark. -/
  escapable : Bool
  deriving DecidableEq, Repr

namespace Enclosure

/-- A string between two quotes. -/
def quoted (q : Char) : Enclosure := ⟨[q], [q], .string, .unclosedQuote, true⟩

/-- The parentheses of an address. -/
def address : Enclosure := ⟨['('], [')'], .brackets, .unclosedUrl, true⟩

/-- A block comment. -/
def comment : Enclosure := ⟨['/', '*'], ['*', '/'], .blockComment, .unclosedComment, false⟩

/-- An interpolated name. -/
def interpolation : Enclosure := ⟨['@', '{'], ['}'], .word, .unclosedInterpolation, false⟩

/-- All pieces that have to be closed. -/
def all : List Enclosure := [quoted '\'', quoted '"', address, comment, interpolation]

/-- A closing mark counts after the text `s`: no backslash at the end of `s` escapes it. -/
def Accepts (e : Enclosure) (s : Text) : Prop := e.escapable = true → escapes s = false

/-- The text begins with the opening mark, and a closing mark that counts stands behind it. -/
def ClosedIn (e : Enclosure) (v : Text) : Prop :=
  ∃ a b, v = e.opener ++ a ++ e.closer ++ b ∧ e.Accepts (e.opener ++ a)

/-- What an enclosure is opened by is not plain, or what closes it is. -/
theorem not_isPlain_opener {e : Enclosure} (he : e ∈ all) :
    (∃ d ∈ e.opener, isPlain d = false) ∨ ∀ d ∈ e.closer, isPlain d = true := by
  simp only [all, List.mem_cons, List.not_mem_nil, or_false] at he
  rcases he with rfl | rfl | rfl | rfl | rfl
  · exact .inl ⟨'\'', List.mem_singleton_self _, rfl⟩
  · exact .inl ⟨'"', List.mem_singleton_self _, rfl⟩
  · exact .inl ⟨'(', List.mem_singleton_self _, rfl⟩
  · exact .inr (by simp [comment, isPlain])
  · exact .inl ⟨'@', List.mem_cons_self, rfl⟩

end Enclosure

variable {cx : Context} {c : Char} {r : Text} {fault : Fault}

theorem closed_eq_error {fault' : Fault} {kind : Kind} {extra : Nat} {width : Option Nat}
    (h : closed fault' kind extra width = .error fault) : width = none ∧ fault' = fault := by
  cases width with
  | none => exact ⟨rfl, Except.error.inj h⟩
  | some k => cases h

/-! ## The failing piece -/

/-- What the lexer knows of a piece it cannot finish: which one it is, that no mark closes it, and that
a closing mark at the end of the text would. -/
structure Unfinished (cx : Context) (c : Char) (r : Text) (e : Enclosure) : Prop where
  mem : e ∈ Enclosure.all
  opened : e.opener <+: c :: r
  unclosed : ¬ e.ClosedIn (c :: r)
  repaired : e.Accepts (c :: r) → Piece cx c (r ++ e.closer) e.kind (r ++ e.closer).length

/-- No mark that counts stands behind a mark of one character. -/
theorem not_closedIn_of_closing? {e : Enclosure} {q : Char} (hopener : e.opener = [c])
    (hcloser : e.closer = [q]) (hescapable : e.escapable = true) (hc : c ≠ '\\') (hq : q ≠ '\\')
    (h : closing? q false r = none) : ¬ e.ClosedIn (c :: r) := by
  rintro ⟨a, b, heq, haccepts⟩
  rw [hopener, hcloser] at heq
  have ha := haccepts hescapable
  rw [hopener, List.singleton_append, ← List.nil_append (c :: a), escapes_append_cons hc] at ha
  refine (closing?_eq_none_iff hq r).1 h ⟨a, b, ?_, ha⟩
  simpa using heq

/-- The mark at the end closes what no mark before it does. -/
theorem closing?_concat {q : Char} (hc : c ≠ '\\') (hq : q ≠ '\\')
    (h : closing? q false r = none) (hescapes : escapes (c :: r) = false) :
    closing? q false (r ++ [q]) = some (r ++ [q]).length := by
  rw [← List.nil_append (c :: r), escapes_append_cons hc] at hescapes
  rw [closing?_eq_some_iff hq]
  exact ⟨r, [], rfl, by simp, hescapes, (closing?_eq_none_iff hq r).1 h⟩

theorem unfinished_quoted (hq : c = '\'' ∨ c = '"') (h : closing? c false r = none) :
    Unfinished cx c r (.quoted c) := by
  have hc : c ≠ '\\' := by rcases hq with rfl | rfl <;> decide
  refine ⟨?_, ⟨r, rfl⟩, not_closedIn_of_closing? rfl rfl rfl hc hc h, fun haccepts => ?_⟩
  · rcases hq with rfl | rfl <;> decide
  · exact .string hq (closing?_concat hc hc h (haccepts rfl))

theorem unfinished_address (hopens : opensUrl cx r = true) (h : closing? ')' false r = none) :
    Unfinished cx '(' r .address := by
  refine ⟨by decide, ⟨r, rfl⟩,
    not_closedIn_of_closing? rfl rfl rfl (by decide) (by decide) h, fun haccepts => ?_⟩
  refine .url ?_ (closing?_concat (by decide) (by decide) h (haccepts rfl))
  cases r with
  | nil =>
    rw [opensUrl, Bool.and_true] at hopens
    rw [List.nil_append, Enclosure.address, opensUrl, hopens]
    rfl
  | cons d r => exact hopens

/-- The marks of a comment do not overlap: what does not close it before its last character does not
close it there. -/
theorem find?_closer_concat (h : ¬ ['*', '/'] <:+: r) :
    find? ['*', '/'] (r ++ ['*', '/']) = some r.length := by
  induction r with
  | nil => rfl
  | cons c r ih =>
    rw [List.infix_cons_iff, not_or] at h
    have hprefix : ['*', '/'].isPrefixOf (c :: (r ++ ['*', '/'])) = false := by
      cases r with
      | nil => simp [List.isPrefixOf]
      | cons d r =>
        have hne := h.1
        rw [← List.isPrefixOf_iff_prefix, Bool.not_eq_true] at hne
        simpa [List.isPrefixOf] using hne
    rw [List.cons_append, find?, hprefix, ih h.2]
    rfl

theorem unfinished_comment (h : find? ['*', '/'] r = none) :
    Unfinished cx '/' ('*' :: r) .comment := by
  rw [find?_eq_none_iff] at h
  refine ⟨by decide, ⟨r, rfl⟩, ?_, fun _ => ?_⟩
  · rintro ⟨a, b, heq, -⟩
    refine h ⟨a, b, ?_⟩
    simpa [Enclosure.comment] using heq.symm
  · have hpiece : Piece cx '/' ('*' :: (r ++ ['*', '/'])) .blockComment (r.length + 3) :=
      .blockComment (find?_closer_concat h)
    simpa [Enclosure.comment] using hpiece

theorem unfinished_interpolation (h : through? '}' r = none) :
    Unfinished cx '@' ('{' :: r) .interpolation := by
  rw [through?_eq_none_iff] at h
  refine ⟨by decide, ⟨r, rfl⟩, ?_, fun _ => ?_⟩
  · rintro ⟨a, b, heq, -⟩
    have hr : r = a ++ '}' :: b := by simpa [Enclosure.interpolation] using heq
    exact h (by simp [hr])
  · have hpiece : Piece cx '@' ('{' :: (r ++ ['}'])) .word (r.length + 1 + 1) :=
      .interpolation (through?_concat h)
    simpa [Enclosure.interpolation] using hpiece

/-- A parenthesis fails only as that of an address. -/
theorem parenLexeme_eq_error (h : parenLexeme cx r = .error fault) :
    opensUrl cx r = true ∧ closing? ')' false r = none ∧ fault = .unclosedUrl := by
  cases hopens : opensUrl cx r with
  | true =>
    rw [parenLexeme, if_pos hopens] at h
    split at h
    · cases h
    · next hnone => exact ⟨rfl, hnone, (Except.error.inj h).symm⟩
  | false =>
    by_cases hcollapses : Collapses r
    · obtain ⟨inner, r, rfl, hplain, hne, hdots⟩ := hcollapses
      rw [parenLexeme_of_plain hopens hplain hne hdots] at h
      cases h
    · rw [parenLexeme_of_not_collapses hopens hcollapses] at h
      cases h

/-- **A failure of the lexer** is a piece that it cannot finish. -/
theorem exists_unfinished (h : lexeme cx c r = .error fault) :
    ∃ e, e.fault = fault ∧ Unfinished cx c r e := by
  by_cases hblank : isBlank c = true
  · rw [Scanner.lexeme_of_isBlank cx r hblank] at h
    cases h
  by_cases hc : c ∈ Scanner.marks
  · simp only [Scanner.marks, List.mem_cons, List.not_mem_nil, or_false] at hc
    rcases hc with rfl | rfl | rfl | rfl | rfl | rfl | rfl | rfl | rfl | rfl | rfl | rfl
    · cases h
    · cases h
    · cases h
    · cases h
    · cases h
    · obtain ⟨hopens, hnone, rfl⟩ := parenLexeme_eq_error h
      exact ⟨.address, rfl, unfinished_address hopens hnone⟩
    · cases h
    · obtain ⟨hnone, hfault⟩ := closed_eq_error h
      exact ⟨.quoted '\'', hfault, unfinished_quoted (.inl rfl) hnone⟩
    · obtain ⟨hnone, hfault⟩ := closed_eq_error h
      exact ⟨.quoted '"', hfault, unfinished_quoted (.inr rfl) hnone⟩
    · cases h
    · by_cases hbrace : r.head? = some '{'
      · obtain ⟨r, rfl⟩ := List.head?_eq_some_iff.1 hbrace
        obtain ⟨hnone, hfault⟩ := closed_eq_error h
        exact ⟨.interpolation, hfault, unfinished_interpolation hnone⟩
      · rw [Scanner.lexeme_at cx hbrace] at h
        split at h <;> cases h
    · by_cases hstar : r.head? = some '*'
      · obtain ⟨r, rfl⟩ := List.head?_eq_some_iff.1 hstar
        obtain ⟨hnone, hfault⟩ := closed_eq_error h
        exact ⟨.comment, hfault, unfinished_comment hnone⟩
      by_cases hslash : r.head? = some '/'
      · obtain ⟨r, rfl⟩ := List.head?_eq_some_iff.1 hslash
        cases h
      · rw [Scanner.lexeme_slash cx hstar hslash] at h
        cases h
  · rw [Scanner.lexeme_of_notMem_marks cx r (by simpa using hblank) hc] at h
    cases h

/-! ## The tokens before it -/

/-- The lexer comes through tokens to the piece where it fails, also if more text follows. -/
theorem exists_of_tokensFrom_error {p : Position} {s : Text} {err : SyntaxError}
    (h : tokensFrom cx p s = .error err) :
    ∃ ts c r, s = join ts ++ c :: r ∧ err.position = p.advance (join ts) ∧
      lexeme (cx.through ts) c r = .error err.fault ∧
      ∀ x, ((∃ d ∈ c :: r, isPlain d = false) ∨ ∀ d ∈ x, isPlain d = true) →
        tokensFrom cx p (s ++ x) =
          (tokensFrom (cx.through ts) (p.advance (join ts)) (c :: (r ++ x))).map (ts ++ ·) := by
  fun_induction tokensFrom cx p s with
  | case1 => cases h
  | case2 cx p c s fault head =>
    obtain rfl := Except.error.inj h
    refine ⟨[], c, s, rfl, rfl, head, fun x _ => ?_⟩
    rw [join_nil, Context.through_nil, Position.advance_nil, List.cons_append]
    cases tokensFrom cx p (c :: (s ++ x)) <;> rfl
  | case3 cx p c s kind n head text err' tail ih =>
    obtain rfl := Except.error.inj h
    obtain ⟨ts, c', r', hrest, hposition, hfail, happend⟩ := ih tail
    have hn : n < s.length := by
      have hlen := congrArg List.length hrest
      rw [List.length_drop, List.length_append, List.length_cons] at hlen
      omega
    refine ⟨⟨kind, text, Span.of p text⟩ :: ts, c', r', ?_, ?_, hfail, fun x hx => ?_⟩
    · rw [join_cons, List.append_assoc, ← hrest, List.cons_append, List.take_append_drop]
    · rw [join_cons, Position.advance_append, hposition]
    · -- the failing piece is part of the text after this token
      have hx' : (∃ d ∈ s, isPlain d = false) ∨ ∀ d ∈ x, isPlain d = true := by
        refine hx.imp_left ?_
        rintro ⟨d, hd, hplain⟩
        refine ⟨d, List.mem_of_mem_drop (i := n) ?_, hplain⟩
        rw [hrest]
        exact List.mem_append_right _ hd
      have hpiece := ((piece_of_lexeme head).append hn hx').lexeme_eq
      rw [List.cons_append, tokensFrom, hpiece]
      simp only [List.take_append_of_le_length (Nat.le_of_lt hn),
        List.drop_append_of_le_length (Nat.le_of_lt hn)]
      rw [happend x hx, Context.through_cons, join_cons, Position.advance_append]
      cases tokensFrom _ _ (c' :: (r' ++ x)) <;> rfl
  | case4 => cases h

/-- The last token of a text. -/
theorem tokensFrom_of_piece {p : Position} {kind : Kind} (h : Piece cx c r kind r.length) :
    tokensFrom cx p (c :: r) = .ok [⟨kind, c :: r, Span.of p (c :: r)⟩] := by
  rw [tokensFrom, h.lexeme_eq]
  simp only [List.take_length, List.drop_length]
  rw [tokensFrom]

/-- **Failures are exact, and can be mended.** A text that cannot be cut into tokens falls into two
parts. The second begins with the opening mark of an enclosure and has no closing mark behind it; the
failure is that of the enclosure, and is reported at the line and column where the second part begins.
If the closing mark is put at the end of the text, where no backslash may escape it, the text can be cut
into tokens: the last of them is the second part with its closing mark, and those before it are the
first part. -/
theorem tokenize_fault {s : Text} {err : SyntaxError} (h : tokenize s = .error err) :
    ∃ e ∈ Enclosure.all, ∃ u v, s = u ++ v ∧ e.opener <+: v ∧ ¬ e.ClosedIn v ∧
      err = ⟨e.fault, ⟨1 + u.count '\n', 1 + u.lastLine.length⟩⟩ ∧
      (e.Accepts v → ∃ ts, join ts = u ∧
        tokenize (s ++ e.closer) =
          .ok (ts ++ [⟨e.kind, v ++ e.closer, Span.of err.position (v ++ e.closer)⟩])) := by
  obtain ⟨ts, c, r, rfl, hposition, hfail, happend⟩ := exists_of_tokensFrom_error h
  obtain ⟨e, hfault, hunfinished⟩ := exists_unfinished hfail
  obtain ⟨hmem, hopened, hunclosed, hrepaired⟩ := hunfinished
  refine ⟨e, hmem, join ts, c :: r, rfl, hopened, hunclosed, ?_, fun haccepts => ⟨ts, rfl, ?_⟩⟩
  · have hafter : err.position = Position.after (join ts) := hposition
    rw [hfault, ← Position.after_eq, ← hafter]
  · have hplain : (∃ d ∈ c :: r, isPlain d = false) ∨ ∀ d ∈ e.closer, isPlain d = true := by
      refine (Enclosure.not_isPlain_opener hmem).imp_left ?_
      rintro ⟨d, hd, hnot⟩
      exact ⟨d, hopened.subset hd, hnot⟩
    rw [tokenize, happend e.closer hplain, tokensFrom_of_piece (hrepaired haccepts), ← hposition]
    rfl

/-- A parenthesis before an address that is not closed. -/
def openAddress : Text := ['(', 'a', '\n', 'u', 'r', 'l', '(', 'b']

theorem tokenize_fault_address :
    tokenize openAddress = .error ⟨.unclosedUrl, ⟨2, 4⟩⟩ ∧
      ∃ ts, join ts = ['(', 'a', '\n', 'u', 'r', 'l'] ∧
        tokenize (openAddress ++ [')']) =
          .ok (ts ++ [⟨.brackets, ['(', 'b', ')'], ⟨⟨2, 4⟩, ⟨2, 6⟩⟩⟩]) := by
  have h : tokenize openAddress = .error ⟨.unclosedUrl, ⟨2, 4⟩⟩ := by decide +kernel
  refine ⟨h, ?_⟩
  obtain ⟨e, he, u, v, hs, -, -, herr, hrepair⟩ := tokenize_fault h
  obtain ⟨hfault, hposition⟩ := SyntaxError.mk.inj herr
  -- the position tells where the text falls into its two parts
  have hplace : ∀ k ≤ 8,
      (⟨2, 4⟩ : Position) = ⟨1 + (openAddress.take k).count '\n',
        1 + (lastLine (openAddress.take k)).length⟩ → k = 6 := by decide
  have hu : u = openAddress.take u.length := by rw [hs, List.take_left]
  have hlen : u.length ≤ 8 := by
    have hlen := congrArg List.length hs
    rw [List.length_append] at hlen
    simp only [openAddress, List.length_cons, List.length_nil] at hlen
    omega
  rw [hu] at hposition
  rw [hplace u.length hlen hposition] at hu
  subst hu
  obtain rfl : v = ['(', 'b'] := (congrArg (List.drop 6) hs).symm
  simp only [Enclosure.all, List.mem_cons, List.not_mem_nil, or_false] at he
  rcases he with rfl | rfl | rfl | rfl | rfl
  · cases hfault
  · cases hfault
  · exact hrepair fun _ => rfl
  · cases hfault
  · cases hfault

end LessStyle.Token
