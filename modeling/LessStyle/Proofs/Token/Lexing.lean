import LessStyle.Proofs.Text.Scan
import LessStyle.Token.Lexer

/-!
# Derivations of token lists

`Lexed cx p s ts` derives the tokens `ts` of the text `s` one lexeme at a time; `tokensFrom` answers
with `ts` exactly if there is such a derivation (`tokensFrom_eq_ok_iff`). What holds of every token
list is then an induction on the derivation. Two such facts serve the parser: the texts of the tokens
together are the source (`Lexed.join_eq`), and the text of every token has the outline of its kind
(`Lexed.outlined`).
-/

namespace LessStyle.Token

open Text

/-- The tokens of a text that begins at `p` after tokens that left the context `cx`, one lexeme after
the other. -/
inductive Lexed : Context → Position → Text → List Token → Prop where
  | nil (cx : Context) (p : Position) : Lexed cx p [] []
  | cons {cx : Context} {p : Position} {c : Char} {s : Text} {kind : Kind} {n : Nat}
      {ts : List Token} (head : lexeme cx c s = .ok (kind, n))
      (tail : Lexed (cx.step kind (c :: s.take n)) (p.advance (c :: s.take n)) (s.drop n) ts) :
      Lexed cx p (c :: s) (⟨kind, c :: s.take n, Span.of p (c :: s.take n)⟩ :: ts)

theorem Lexed.tokensFrom_eq {cx : Context} {p : Position} {s : Text} {ts : List Token}
    (h : Lexed cx p s ts) : tokensFrom cx p s = .ok ts := by
  induction h with
  | nil => rw [tokensFrom]
  | cons head _ ih =>
    rw [tokensFrom, head]
    simp only [ih]

theorem lexed_of_tokensFrom {cx : Context} {p : Position} {s : Text} {ts : List Token}
    (h : tokensFrom cx p s = .ok ts) : Lexed cx p s ts := by
  fun_induction tokensFrom cx p s generalizing ts with
  | case1 cx p =>
    obtain rfl := Except.ok.inj h
    exact .nil cx p
  | case2 => cases h
  | case3 => cases h
  | case4 cx p c s kind n head text us tail =>
    rename_i ih
    obtain rfl := Except.ok.inj h
    exact .cons head (ih tail)

theorem tokensFrom_eq_ok_iff {cx : Context} {p : Position} {s : Text} {ts : List Token} :
    tokensFrom cx p s = .ok ts ↔ Lexed cx p s ts :=
  ⟨lexed_of_tokensFrom, Lexed.tokensFrom_eq⟩

/-! ## Nothing is lost -/

/-- The texts of the tokens together are the source. -/
theorem Lexed.join_eq {cx : Context} {p : Position} {s : Text} {ts : List Token}
    (h : Lexed cx p s ts) : join ts = s := by
  induction h with
  | nil => rfl
  | cons _ _ ih => rw [join_cons, ih, List.cons_append, List.take_append_drop]

theorem Lexed.text_ne_nil {cx : Context} {p : Position} {s : Text} {ts : List Token}
    (h : Lexed cx p s ts) : ∀ t ∈ ts, t.text ≠ [] := by
  induction h with
  | nil => simp
  | cons _ _ ih =>
    intro t ht
    rcases List.mem_cons.1 ht with rfl | ht
    · exact List.cons_ne_nil _ _
    · exact ih t ht

/-! ## Outlines -/

/-- What the text of a token says of its kind: the character of a bracket or a separator, the marks of
a comment, the `@` of an at-word. -/
def Kind.Outline : Kind → Text → Prop
  | .openParen, s => s = ['(']
  | .closeParen, s => s = [')']
  | .openBrace, s => s = ['{']
  | .closeBrace, s => s = ['}']
  | .colon, s => s = [':']
  | .semicolon, s => s = [';']
  | .atWord, s => ∃ name, s = '@' :: name
  | .lineComment, s => ∃ body, s = '/' :: '/' :: body
  | .blockComment, s => ∃ body, s = '/' :: '*' :: (body ++ ['*', '/'])
  | _, _ => True

theorem Kind.Outline.of_eq {k k' : Kind} {s : Text} (h : k.Outline s) (hk : k = k') :
    k'.Outline s :=
  hk ▸ h

theorem parenLexeme_outline {cx : Context} {s : Text} {kind : Kind} {n : Nat}
    (h : parenLexeme cx s = .ok (kind, n)) : kind.Outline ('(' :: s.take n) := by
  unfold parenLexeme at h
  split at h
  · split at h <;> cases h
    trivial
  · dsimp only at h
    split at h
    · split at h <;> cases h
      · rfl
      · trivial
    · cases h
      rfl

theorem closed_eq_ok {fault : Fault} {kind kind' : Kind} {extra n : Nat} {width : Option Nat}
    (h : closed fault kind extra width = .ok (kind', n)) :
    kind' = kind ∧ ∃ k, width = some k ∧ n = k + extra := by
  cases width with
  | none => cases h
  | some k =>
    cases h
    exact ⟨rfl, k, rfl, rfl⟩

/-- The text of a lexeme has the outline of its kind. -/
theorem lexeme_outline {cx : Context} {c : Char} {s : Text} {kind : Kind} {n : Nat}
    (h : lexeme cx c s = .ok (kind, n)) : kind.Outline (c :: s.take n) := by
  unfold lexeme at h
  split at h
  · cases h
    trivial
  split at h
  case h_6 => exact parenLexeme_outline h
  case h_11 =>
    -- an interpolation, a parameter or an at-word
    split at h
    · obtain ⟨rfl, -⟩ := closed_eq_ok h
      trivial
    · split at h <;> cases h
      · trivial
      · exact ⟨_, rfl⟩
  case h_12 =>
    split at h
    · next r =>
      obtain ⟨rfl, k, hk, rfl⟩ := closed_eq_ok h
      refine ⟨r.take k, ?_⟩
      rw [List.take_succ_cons]
      exact congrArg _ (congrArg _ (take_find?_add hk))
    · cases h
      rw [Nat.add_comm, List.take_succ_cons]
      exact ⟨_, rfl⟩
    · cases h
      trivial
  case h_8 | h_9 =>
    obtain ⟨rfl, -⟩ := closed_eq_ok h
    trivial
  all_goals
    cases h
    trivial

theorem Lexed.outlined {cx : Context} {p : Position} {s : Text} {ts : List Token}
    (h : Lexed cx p s ts) : ∀ t ∈ ts, t.kind.Outline t.text := by
  induction h with
  | nil => simp
  | cons head _ ih =>
    intro t ht
    rcases List.mem_cons.1 ht with rfl | ht
    · exact lexeme_outline head
    · exact ih t ht

end LessStyle.Token
