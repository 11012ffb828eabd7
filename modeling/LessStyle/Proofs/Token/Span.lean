import LessStyle.Proofs.Text.Position
import LessStyle.Proofs.Token.Lexing
import LessStyle.Rule.Basic
import Mathlib.Data.List.Basic

/-!
# Spans of tokens

The lexer counts lines and columns while it goes along. `Located` says what its count comes to: each
token has the span of its text from the place where the token before it ended. So the span of a token
can be read off the text before it (`tokenize_span`), and it leads back to the token on the line that
the rules see.
-/

namespace LessStyle

/-- The line that the rules see is the line of the text. -/
theorem Page.line_of (s : Text) (n : Nat) : (Page.of s).line n = (s.line? n).getD [] := by
  rw [Page.line, Page.of, Text.line?, List.getElem?_toArray]
  split <;> rfl

/-- The line at the position after `s` leads to the character after it: it stands in that column, or it
is the line break that ends the line. -/
theorem Text.exists_line_after (s : Text) (c : Char) (t : Text) :
    ∃ l, (s ++ c :: t).line? (Position.after s).line = some l ∧
      if c = '\n' then (Position.after s).column = l.length + 1
      else l[(Position.after s).column - 1]? = some c := by
  refine ⟨_, line?_after s (c :: t), ?_⟩
  rw [Position.after_eq, Nat.add_sub_cancel_left]
  split
  · next hc => simp [hc, firstLine, Nat.add_comm]
  · next hc => simp [hc, firstLine]

namespace Token

/-- The tokens stand one after another from `p` on, each with the span of its text. -/
def Located : Position → List Token → Prop
  | _, [] => True
  | p, t :: ts => t.span = Span.of p t.text ∧ Located (p.advance t.text) ts

theorem located_append {p : Position} {ts us : List Token} :
    Located p (ts ++ us) ↔ Located p ts ∧ Located (p.advance (join ts)) us := by
  induction ts generalizing p with
  | nil => simp [Located]
  | cons t ts ih => simp [Located, ih, and_assoc]

theorem Lexed.located {cx : Context} {p : Position} {s : Text} {ts : List Token}
    (h : Lexed cx p s ts) : Located p ts := by
  induction h with
  | nil => trivial
  | cons _ _ ih => exact ⟨rfl, ih⟩

theorem Located.getElem {p : Position} {ts : List Token} (h : Located p ts) {i : Nat}
    (hi : i < ts.length) : ts[i].span = Span.of (p.advance (join (ts.take i))) ts[i].text := by
  have hsplit : ts.take i ++ ts[i] :: ts.drop (i + 1) = ts := by
    rw [← List.drop_eq_getElem_cons, List.take_append_drop]
  rw [← hsplit, located_append] at h
  exact h.2.1

theorem Located.le_first {p : Position} {ts : List Token} (h : Located p ts) :
    ∀ t ∈ ts, p ≤ t.span.first := by
  induction ts generalizing p with
  | nil => simp
  | cons t ts ih =>
    intro u hu
    rcases List.mem_cons.1 hu with rfl | hu
    · rw [h.1]
      exact le_refl p
    · exact (Position.le_advance p t.text).trans (ih h.2 u hu)

/-- Tokens begin one after the other. -/
theorem Located.pairwise_first {p : Position} {ts : List Token} (h : Located p ts)
    (hne : ∀ t ∈ ts, t.text ≠ []) : ts.Pairwise fun a b => a.span.first < b.span.first := by
  induction ts generalizing p with
  | nil => exact .nil
  | cons t ts ih =>
    refine .cons (fun u hu => ?_) (ih h.2 fun u hu => hne u (List.mem_cons_of_mem _ hu))
    calc t.span.first = p := by rw [h.1]; rfl
      _ < p.advance t.text := Position.lt_advance p (hne t List.mem_cons_self)
      _ ≤ u.span.first := h.2.le_first u hu

theorem join_take_succ {ts : List Token} {i : Nat} (hi : i < ts.length) :
    join (ts.take (i + 1)) = join (ts.take i) ++ ts[i].text := by
  rw [← List.take_append_getElem hi, join_append, join_cons, join_nil, List.append_nil]

/-- From the first to the last of consecutive tokens. -/
theorem Located.span_join {p : Position} {first : Token} {ts : List Token}
    (h : Located p (first :: ts)) (hne : ∀ t ∈ first :: ts, t.text ≠ []) :
    (⟨first.span.first, (ts.getLastD first).span.last⟩ : Span) =
      Span.of p (join (first :: ts)) := by
  have hfirst : first.span = Span.of p first.text := h.1
  rcases List.eq_nil_or_concat' ts with rfl | ⟨us, t, rfl⟩
  · rw [join_cons, join_nil, List.append_nil, ← hfirst]
    rfl
  · have hsplit : Located p ((first :: us) ++ [t]) := h
    have ht : t.span = Span.of (p.advance (join (first :: us))) t.text :=
      (located_append.1 hsplit).2.1
    have htext : t.text ≠ [] := hne t (by simp)
    rw [← List.cons_append, join_append, join_cons t, join_nil, List.append_nil, Span.of,
      List.dropLast_append_of_ne_nil htext, Position.advance_append, hfirst,
      List.getLastD_concat, ht]
    rfl

/-- From the first of consecutive tokens to a single character after them. -/
theorem Located.span_concat {p : Position} {first last : Token} {ts : List Token} {c : Char}
    (h : Located p (first :: (ts ++ [last]))) :
    (⟨first.span.first, last.span.first⟩ : Span) = Span.of p (join (first :: ts) ++ [c]) := by
  have hfirst : first.span = Span.of p first.text := h.1
  have hsplit : Located p ((first :: ts) ++ [last]) := h
  have hlast : last.span = Span.of (p.advance (join (first :: ts))) last.text :=
    (located_append.1 hsplit).2.1
  rw [Span.of, List.dropLast_concat, hfirst, hlast]
  rfl

/-- **Spans are exact.** A token begins on the line and in the column that the text before it leads to,
and ends on those of its last character. So tokens do not overlap, and the line at the beginning of a
token has its first character in that column. -/
theorem tokenize_span {s : Text} {ts : List Token} (h : tokenize s = .ok ts) {i : Nat}
    (hi : i < ts.length) :
    let p := join (ts.take i)
    let q := p ++ ts[i].text.dropLast
    ts[i].span.first = ⟨1 + p.count '\n', 1 + p.lastLine.length⟩ ∧
      ts[i].span.last = ⟨1 + q.count '\n', 1 + q.lastLine.length⟩ ∧
      ts[i].span.first ≤ ts[i].span.last ∧
      (∀ hj : i + 1 < ts.length, ts[i].span.last < ts[i + 1].span.first) ∧
      ∃ c l, ts[i].text.head? = some c ∧ s.line? ts[i].span.first.line = some l ∧
        (Page.of s).line ts[i].span.first.line = l ∧
        if c = '\n' then ts[i].span.first.column = l.length + 1
        else l[ts[i].span.first.column - 1]? = some c := by
  intro p q
  have hlex := lexed_of_tokensFrom h
  have hspan : ts[i].span = Span.of (Position.after p) ts[i].text := hlex.located.getElem hi
  have hne : ts[i].text ≠ [] := hlex.text_ne_nil _ (List.getElem_mem hi)
  refine ⟨?_, ?_, ?_, ?_, ?_⟩
  · rw [← Position.after_eq, hspan]
    rfl
  · rw [← Position.after_eq, Position.after_append, hspan]
    rfl
  · rw [hspan]
    exact Span.first_le_last_of _ _
  · intro hj
    have hnext : ts[i + 1].span.first = (Position.after p).advance ts[i].text := by
      rw [hlex.located.getElem hj, join_take_succ hi, Position.advance_append]
      rfl
    rw [hnext, hspan]
    exact Span.last_of_lt_advance _ hne
  · obtain ⟨c, t, hc⟩ := List.exists_cons_of_ne_nil hne
    have hs : p ++ c :: (t ++ join (ts.drop (i + 1))) = s := by
      rw [← List.cons_append, ← hc, ← List.append_assoc, ← join_take_succ hi, ← join_append,
        List.take_append_drop, hlex.join_eq]
    obtain ⟨l, hl, hcol⟩ := Text.exists_line_after p c (t ++ join (ts.drop (i + 1)))
    rw [hs] at hl
    have hfirst : ts[i].span.first = Position.after p := by
      rw [hspan]
      rfl
    rw [hfirst]
    exact ⟨c, l, by rw [hc]; rfl, hl, by rw [Page.line_of, hl]; rfl, hcol⟩

theorem tokenize_span_two_lines :
    ∃ a b, tokenize ['/', '*', '\n', '*', '/', 'é'] = .ok [a, b] ∧ b.span.first = ⟨2, 3⟩ ∧
      a.span.last < b.span.first := by
  have hts : tokenize ['/', '*', '\n', '*', '/', 'é'] =
      .ok [⟨.blockComment, ['/', '*', '\n', '*', '/'], ⟨⟨1, 1⟩, ⟨2, 2⟩⟩⟩,
        ⟨.word, ['é'], ⟨⟨2, 3⟩, ⟨2, 3⟩⟩⟩] := by
    decide +kernel
  have hfirst := tokenize_span hts (i := 0) (by decide)
  have hsecond := tokenize_span hts (i := 1) (by decide)
  exact ⟨_, _, hts, hsecond.1, hfirst.2.2.2.1 (by decide)⟩

end Token

end LessStyle
