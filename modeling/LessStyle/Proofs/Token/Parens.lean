import LessStyle.Proofs.Token.Shape

/-!
# Parentheses among tokens

A parenthesis is closed if a closing one follows it with balanced tokens between them
(`ParensClosed`). To see whether all are closed it is enough to count: the number of parentheses that
are open after the tokens is zero (`parensClosed_iff`).
-/

namespace LessStyle.Token

/-! ## Counting -/

/-- The number of parentheses that are open after tokens, if `n` are open before them. A closing one
too many does not count. -/
def depthAfter (n : Nat) (ts : List Token) : Nat :=
  ts.foldl (fun n t => match t.kind with
    | .openParen => n + 1
    | .closeParen => n - 1
    | _ => n) n

theorem openParens_eq (ts : List Token) : openParens ts = depthAfter 0 ts := rfl

@[simp] theorem depthAfter_nil (n : Nat) : depthAfter n [] = n := rfl

theorem depthAfter_append (n : Nat) (ts us : List Token) :
    depthAfter n (ts ++ us) = depthAfter (depthAfter n ts) us :=
  List.foldl_append

variable {t : Token} (n : Nat) (ts : List Token)

theorem depthAfter_open (h : t.kind = .openParen) :
    depthAfter n (t :: ts) = depthAfter (n + 1) ts := by
  simp [depthAfter, h]

theorem depthAfter_close (h : t.kind = .closeParen) :
    depthAfter n (t :: ts) = depthAfter (n - 1) ts := by
  simp [depthAfter, h]

theorem depthAfter_plain (hopen : t.kind ≠ .openParen) (hclose : t.kind ≠ .closeParen) :
    depthAfter n (t :: ts) = depthAfter n ts := by
  simp [depthAfter]

/-- Blanks and comments leave the number as it is. -/
theorem depthAfter_of_isTrivia {ts : List Token} (h : ∀ t ∈ ts, t.kind.isTrivia = true) :
    depthAfter n ts = n := by
  induction ts with
  | nil => rfl
  | cons t ts ih =>
    have ht := h t List.mem_cons_self
    rw [depthAfter_plain, ih fun u hu => h u (List.mem_cons_of_mem _ hu)]
    · intro hk
      simp [hk, Kind.isTrivia] at ht
    · intro hk
      simp [hk, Kind.isTrivia] at ht

/-! ## Matching -/

/-- Every parenthesis among the tokens, opening or closing, has its partner there. -/
inductive Balanced : List Token → Prop where
  | nil : Balanced []
  | plain {t : Token} {ts : List Token} (hopen : t.kind ≠ .openParen) (hclose : t.kind ≠ .closeParen)
      (tail : Balanced ts) : Balanced (t :: ts)
  | parens {t u : Token} {inner ts : List Token} (hopen : t.kind = .openParen)
      (hclose : u.kind = .closeParen) (inside : Balanced inner) (tail : Balanced ts) :
      Balanced (t :: (inner ++ u :: ts))

/-- Every opening parenthesis among the tokens has a closing one after it, with balanced tokens
between them. -/
def ParensClosed (ts : List Token) : Prop :=
  ∀ before t after, ts = before ++ t :: after → t.kind = .openParen →
    ∃ inner u rest, after = inner ++ u :: rest ∧ u.kind = .closeParen ∧ Balanced inner

theorem Balanced.depthAfter_eq {ts : List Token} (h : Balanced ts) (n : Nat) :
    depthAfter n ts = n := by
  induction h generalizing n with
  | nil => rfl
  | plain hopen hclose _ ih => rw [depthAfter_plain n _ hopen hclose, ih]
  | parens hopen hclose _ _ ih₁ ih₂ =>
    rw [depthAfter_open n _ hopen, depthAfter_append, ih₁, depthAfter_close _ _ hclose,
      Nat.add_sub_cancel, ih₂]

/-- If fewer are open at the end, one of the open parentheses is closed on the way: up to there the
tokens are balanced. -/
theorem exists_balanced_of_depthAfter_le {n : Nat} {ts : List Token}
    (h : depthAfter (n + 1) ts ≤ n) :
    ∃ inner u rest, ts = inner ++ u :: rest ∧ u.kind = .closeParen ∧ Balanced inner := by
  -- a nested parenthesis is passed over as a whole, so the induction is on the length
  induction hlen : ts.length using Nat.strongRecOn generalizing n ts with
  | ind len ih =>
  subst hlen
  cases ts with
  | nil => exact absurd h (Nat.not_succ_le_self n)
  | cons t ts =>
    have hshort : ts.length < (t :: ts).length := Nat.lt_succ_self _
    by_cases hclose : t.kind = .closeParen
    · exact ⟨[], t, ts, rfl, hclose, .nil⟩
    by_cases hopen : t.kind = .openParen
    · rw [depthAfter_open _ _ hopen] at h
      obtain ⟨inner, u, rest, rfl, hu, hinner⟩ := ih _ hshort (Nat.le_succ_of_le h) rfl
      rw [depthAfter_append, hinner.depthAfter_eq, depthAfter_close _ _ hu,
        Nat.add_sub_cancel] at h
      obtain ⟨inner', u', rest', rfl, hu', hinner'⟩ := ih _ (by simp; omega) h rfl
      exact ⟨t :: (inner ++ u :: inner'), u', rest', by simp, hu',
        .parens hopen hu hinner hinner'⟩
    · rw [depthAfter_plain _ _ hopen hclose] at h
      obtain ⟨inner, u, rest, rfl, hu, hinner⟩ := ih _ hshort h rfl
      exact ⟨t :: inner, u, rest, rfl, hu, .plain hopen hclose hinner⟩

theorem ParensClosed.tail {t : Token} {ts : List Token} (h : ParensClosed (t :: ts)) :
    ParensClosed ts :=
  fun before u after hts hu => h (t :: before) u after (by rw [hts, List.cons_append]) hu

theorem ParensClosed.of_append {ts us : List Token} (h : ParensClosed (ts ++ us)) :
    ParensClosed us := by
  induction ts with
  | nil => exact h
  | cons t ts ih => exact ih h.tail

/-- **All parentheses are closed** exactly if none is open at the end. -/
theorem parensClosed_iff (ts : List Token) : ParensClosed ts ↔ openParens ts = 0 := by
  constructor
  · intro h
    rw [openParens_eq]
    induction hlen : ts.length using Nat.strongRecOn generalizing ts with
    | ind len ih =>
    subst hlen
    cases ts with
    | nil => rfl
    | cons t ts =>
      have hshort : ts.length < (t :: ts).length := Nat.lt_succ_self _
      by_cases hopen : t.kind = .openParen
      · obtain ⟨inner, u, rest, rfl, hu, hinner⟩ := h [] t ts rfl hopen
        have hrest : ParensClosed rest := h.tail.of_append.tail
        rw [depthAfter_open _ _ hopen, depthAfter_append, hinner.depthAfter_eq,
          depthAfter_close _ _ hu]
        exact ih _ (by simp; omega) rest hrest rfl
      by_cases hclose : t.kind = .closeParen
      · rw [depthAfter_close _ _ hclose]
        exact ih _ hshort ts h.tail rfl
      · rw [depthAfter_plain _ _ hopen hclose]
        exact ih _ hshort ts h.tail rfl
  · rintro h before t after rfl hopen
    rw [openParens_eq, depthAfter_append, depthAfter_open _ _ hopen] at h
    exact exists_balanced_of_depthAfter_le (h ▸ Nat.zero_le _)

end LessStyle.Token
