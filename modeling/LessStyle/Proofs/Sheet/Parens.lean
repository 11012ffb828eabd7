import LessStyle.Proofs.Sheet.Origin
import LessStyle.Proofs.Token.Parens

/-!
# Parentheses of statements

A statement that is no at-rule is followed token by token with the parentheses that are open, and
stops only outside of them. So the selector of a block, a declaration and a call close the parentheses
they open (`Statement.Holds.parensClosed`). The parameters of an at-rule end at the first semicolon or
brace, whatever is open there.
-/

namespace LessStyle

open Token (join ParensClosed openParens depthAfter)

namespace Statement

@[simp] theorem Extent.width_succ (e : Extent) : e.succ.width = e.width + 1 := rfl

@[simp] theorem Extent.stop_succ (e : Extent) : e.succ.stop = e.stop := rfl

@[simp] theorem Extent.colon_succ (e : Extent) : e.succ.colon = e.colon := rfl

/-- **One token of a statement.** Either the statement stops there, outside parentheses, or it goes on
with as many open parentheses as the token leaves; a colon counts outside of them. -/
theorem extent_cons (opened : List Token) (colon : Bool) (t : Token) (ts : List Token) :
    (opened = [] ∧ ∃ stop, extent opened colon (t :: ts) = ⟨0, stop, colon⟩) ∨
      ∃ opened' colon', extent opened colon (t :: ts) = (extent opened' colon' ts).succ ∧
        opened'.length = depthAfter opened.length [t] ∧
        (colon' = true ↔ colon = true ∨ opened = [] ∧ t.kind = .colon) := by
  generalize hus : t :: ts = us
  fun_cases extent opened colon us with
  | case1 | case2 => cases hus
  | case3 u us _ h =>
    cases hus
    exact .inr ⟨_, _, rfl, by simp [Token.depthAfter_open _ _ h], by simp [h]⟩
  | case4 u us p opened h =>
    cases hus
    exact .inr ⟨_, _, rfl, by simp [Token.depthAfter_close _ _ h], by simp⟩
  | case5 u us p opened hopen hclose =>
    cases hus
    exact .inr ⟨_, _, rfl, by simp [Token.depthAfter_plain _ _ hopen hclose], by simp⟩
  | case6 | case7 | case8 => exact .inl ⟨rfl, _, rfl⟩
  | case9 u us h =>
    cases hus
    exact .inr ⟨_, _, rfl, by simp [Token.depthAfter, h], by simp [h]⟩
  | case10 u us hopen _ _ _ hcolon =>
    cases hus
    refine .inr ⟨_, _, rfl, ?_, by simpa using fun h => (hcolon h).elim⟩
    by_cases hclose : t.kind = .closeParen
    · simp [Token.depthAfter_close _ _ hclose]
    · simp [Token.depthAfter_plain _ _ hopen hclose]

/-- A statement that stops outside parentheses has closed those that were open. -/
theorem depthAfter_extent {opened : List Token} {colon : Bool} {ts : List Token}
    (h : ∀ paren, (extent opened colon ts).stop ≠ .unclosed paren) :
    depthAfter opened.length (ts.take (extent opened colon ts).width) = 0 := by
  induction ts generalizing opened colon with
  | nil =>
    rw [List.take_nil, Token.depthAfter_nil, List.length_eq_zero_iff]
    unfold extent at h
    split at h
    · exact absurd rfl (h _)
    · next hlast => simpa using hlast
  | cons t ts ih =>
    obtain ⟨rfl, stop, hstop⟩ | ⟨opened', colon', hextent, hlen, -⟩ := extent_cons opened colon t ts
    · rw [hstop]
      rfl
    · rw [hextent] at h ⊢
      rw [Extent.width_succ, List.take_succ_cons, ← List.singleton_append,
        Token.depthAfter_append, ← hlen]
      exact ih h

/-- **A statement closes the parentheses it opens.** -/
theorem Holds.parensClosed {first : Token} {us after : List Token} (h : Holds first us after) :
    ParensClosed (first :: us) := by
  obtain ⟨gap, hgap, htake⟩ := h.exists_gap
  have hdepth : depthAfter 0 ((first :: (us ++ after)).take (extentOf first (us ++ after)).width) =
    0 := depthAfter_extent h.closes
  rw [htake, ← List.cons_append, Token.depthAfter_append, Token.depthAfter_of_isTrivia _ hgap]
    at hdepth
  exact (Token.parensClosed_iff _).2 hdepth

end Statement

namespace Node

/-- Only the tokens of an at-rule can leave a parenthesis open; no semicolon and no brace stands among
them. -/
theorem Origin.parens {n : Node} {own after : List Token} (h : n.Origin own after) :
    if n.isAtRule then ∀ t ∈ own, Draft.endsParams t = false else ParensClosed own := by
  have hnil : ParensClosed [] := (Token.parensClosed_iff []).2 rfl
  have hparams : ∀ {r : AtRule} {first : Token} {us : List Token}, HasParams r first us →
      ∀ t ∈ first :: us, Draft.endsParams t = false := by
    intro r first us hr t ht
    rcases List.mem_cons.1 ht with rfl | ht
    · simp [Draft.endsParams, hr.kind]
    · exact hr.unended t ht
  cases h with
  | comment => exact hnil
  | bare selector => exact hnil
  | block holds selector => exact holds.parensClosed
  | call holds selector => exact holds.parensClosed
  | declaration holds colon => exact holds.parensClosed
  | atRule params => exact hparams params
  | atBlock params => exact hparams params

end Node

namespace Sheet

/-- **Parentheses are closed outside at-rules.** Every node of a sheet has the tokens of its statement
side by side. If it is no at-rule, every parenthesis among them is closed there. An at-rule goes on to
the first semicolon or brace without regard to parentheses, so a sheet has closed parentheses in all
its statements exactly if none is left open at the end of an at-rule. -/
theorem parens_of_tokenize {s : Text} {ts : List Token} {sheet : Sheet}
    (hts : Token.tokenize s = .ok ts) (hsheet : ofTokens ts = .ok sheet) :
    (∀ n ∈ sheet.walk, n.1.tokens ts <:+: ts ∧ join (n.1.tokens ts) = n.1.statement) ∧
    (∀ n ∈ sheet.walk, n.1.isAtRule = false → ParensClosed (n.1.tokens ts)) ∧
    (∀ n ∈ sheet.walk, n.1.isAtRule = true → ∀ t ∈ n.1.tokens ts, Draft.endsParams t = false) ∧
    ((∀ n ∈ sheet.walk, ParensClosed (n.1.tokens ts)) ↔
      ∀ n ∈ sheet.walk, n.1.isAtRule = true → openParens (n.1.tokens ts) = 0) := by
  have hlex := Token.lexed_of_tokensFrom hts
  have hclosed : ∀ n ∈ sheet.walk, n.1.isAtRule = false → ParensClosed (n.1.tokens ts) := by
    intro n hn hrule
    obtain ⟨_, _, -, -, horigin⟩ := (exists_origin hsheet n hn).exists_tokens hlex
    simpa [hrule] using horigin.parens
  refine ⟨fun n hn => ?_, hclosed, fun n hn hrule => ?_, fun h n hn _ => ?_, fun h n hn => ?_⟩
  · obtain ⟨before, after, heq, hjoin, -⟩ := (exists_origin hsheet n hn).exists_tokens hlex
    exact ⟨⟨before, after, heq.symm⟩, hjoin.symm⟩
  · obtain ⟨_, _, -, -, horigin⟩ := (exists_origin hsheet n hn).exists_tokens hlex
    simpa [hrule] using horigin.parens
  · exact (Token.parensClosed_iff _).1 (h n hn)
  · cases hrule : n.1.isAtRule with
    | false => exact hclosed n hn hrule
    | true => exact (Token.parensClosed_iff _).2 (h n hn hrule)

theorem parens_of_tokenize_media :
    ∃ ts sheet,
      Token.tokenize "@media (a) \x7b .m(@b) \x7b c: f((@d)) \x7d .m(1); \x7d".toList = .ok ts ∧
      ofTokens ts = .ok sheet ∧ ∀ n ∈ sheet.walk, ParensClosed (n.1.tokens ts) := by
  obtain ⟨ts, sheet, hts, hsheet, hopen⟩ := exists_of_eval
    (s := "@media (a) \x7b .m(@b) \x7b c: f((@d)) \x7d .m(1); \x7d".toList)
    (f := fun ts sheet => sheet.walk.all fun n => !n.1.isAtRule || openParens (n.1.tokens ts) == 0)
    (a := true) (by decide +kernel)
  refine ⟨ts, sheet, hts, hsheet, (parens_of_tokenize hts hsheet).2.2.2.2 fun n hn hrule => ?_⟩
  have hn := List.all_eq_true.1 hopen n hn
  rwa [hrule, Bool.not_true, Bool.false_or, beq_iff_eq] at hn

/-- The parameters of an at-rule can leave a parenthesis open. -/
theorem not_parensClosed_atRule :
    ∃ ts sheet n, Token.tokenize ['@', 'a', ' ', '(', ';'] = .ok ts ∧ ofTokens ts = .ok sheet ∧
      n ∈ sheet.walk ∧ ¬ ParensClosed (n.1.tokens ts) := by
  obtain ⟨ts, sheet, hts, hsheet, hopen⟩ := exists_of_eval (s := ['@', 'a', ' ', '(', ';'])
    (f := fun ts sheet => sheet.walk.map fun n => openParens (n.1.tokens ts)) (a := [1])
    (by decide +kernel)
  obtain ⟨n, hn, hone⟩ := List.mem_map.1 (hopen ▸ List.mem_singleton_self 1)
  refine ⟨ts, sheet, n, hts, hsheet, hn, ?_⟩
  rw [Token.parensClosed_iff, hone]
  decide

end Sheet

end LessStyle
