import LessStyle.Proofs.Token.Closing
import LessStyle.Value.Literal
import LessStyle.Value.Part

/-!
# The top level of a value

`Nesting.step` follows a value character by character. This module says where the top level is without
it: `AtTop` is a grammar of the texts behind which no escape, no string and no parenthesis is open. The
statement that carries the module is `isTop_foldl_iff`, that both mean the same texts.

One direction is a run of `step` over a text of the grammar (`Complete.foldl_step`). For the other one
`Reaches` reads off every nesting how the text before it is put together; a step keeps it
(`Reaches.step`), so it holds of every run (`reaches_foldl`).
-/

namespace LessStyle

open Text
open Token (escapes escapes_concat HasUnescaped hasUnescaped_concat)

theorem ne_backslash_of_isQuote {q : Char} (h : isQuote q = true) : q ≠ '\\' := by
  rintro rfl
  exact absurd h (by decide)

namespace Nesting

/-! ## The grammar -/

/-- A text in which every escape, every string and every parenthesis is complete. -/
inductive Complete : Text → Prop where
  | nil : Complete []
  | char {s : Text} {c : Char} (front : Complete s) (plain : isMark c = false) : Complete (s ++ [c])
  | escape {s : Text} (front : Complete s) (c : Char) : Complete (s ++ ['\\', c])
  | string {s body : Text} {q : Char} (front : Complete s) (quote : isQuote q = true)
      (unclosed : ¬ HasUnescaped q body) (unescaped : escapes body = false) :
      Complete (s ++ q :: (body ++ [q]))
  | parens {s inner : Text} (front : Complete s) (inside : Complete inner) :
      Complete (s ++ '(' :: (inner ++ [')']))

/-- A text behind which the top level is: complete texts, and between them closing parentheses that
close nothing. -/
inductive AtTop : Text → Prop where
  | complete {s : Text} (complete : Complete s) : AtTop s
  | close {s t : Text} (front : AtTop s) (back : Complete t) : AtTop (s ++ ')' :: t)

/-- A text that leaves `d` parentheses open, each with complete text behind it. -/
inductive Opens : Nat → Text → Prop where
  | top {s : Text} (top : AtTop s) : Opens 0 s
  | paren {d : Nat} {s t : Text} (front : Opens d s) (inside : Complete t) :
      Opens (d + 1) (s ++ '(' :: t)

theorem Complete.append {s t : Text} (hs : Complete s) (ht : Complete t) : Complete (s ++ t) := by
  induction ht with
  | nil => rwa [List.append_nil]
  | char _ plain ih =>
    rw [← List.append_assoc]
    exact .char ih plain
  | escape _ c ih =>
    rw [← List.append_assoc]
    exact .escape ih c
  | string _ quote unclosed unescaped ih =>
    rw [← List.append_assoc]
    exact .string ih quote unclosed unescaped
  | parens _ inside ih =>
    rw [← List.append_assoc]
    exact .parens ih inside

theorem AtTop.append {s t : Text} (hs : AtTop s) (ht : Complete t) : AtTop (s ++ t) := by
  cases hs with
  | complete hs => exact .complete (hs.append ht)
  | close front back =>
    rw [List.append_assoc, List.cons_append]
    exact .close front (back.append ht)

theorem Opens.append {d : Nat} {s t : Text} (hs : Opens d s) (ht : Complete t) : Opens d (s ++ t) := by
  cases hs with
  | top top => exact .top (top.append ht)
  | paren front inside =>
    rw [List.append_assoc, List.cons_append]
    exact .paren front (inside.append ht)

/-- A closing parenthesis closes the last one that is open, if there is one. -/
theorem Opens.close {d : Nat} {s : Text} (h : Opens d s) : Opens (d - 1) (s ++ [')']) := by
  cases h with
  | top top => exact .top (.close top .nil)
  | paren front inside =>
    rw [List.append_assoc, List.cons_append]
    exact front.append (.parens .nil inside)

/-! ## Runs over the grammar -/

/-- Inside a string a run only follows the backslashes. -/
theorem foldl_step_quoted {q : Char} {body : Text} (d : Nat) (h : ¬ HasUnescaped q body) :
    body.foldl step ⟨d, some q, false⟩ = ⟨d, some q, escapes body⟩ := by
  induction body using List.reverseRecOn with
  | nil => rfl
  | append_singleton body c ih =>
    rw [hasUnescaped_concat, not_or] at h
    obtain ⟨hbody, hc⟩ := h
    rw [List.foldl_append, ih hbody, List.foldl_cons, List.foldl_nil, escapes_concat]
    cases hescapes : escapes body with
    | true => simp [step]
    | false =>
      have hne : c ≠ q := fun heq => hc ⟨heq, hescapes⟩
      by_cases hslash : c = '\\'
      · simp [step, hslash]
      · simp [step, hslash, hne]

theorem step_of_isMark_eq_false {n : Nesting} {c : Char} (hc : isMark c = false)
    (hquote : n.quote = none) (hescaped : n.escaped = false) : n.step c = n := by
  simp only [isMark, Bool.or_eq_false_iff, beq_eq_false_iff_ne] at hc
  simp [step, hquote, hescaped, hc]

/-- **A complete text leads back to the nesting before it.** -/
theorem Complete.foldl_step {s : Text} (h : Complete s) (d : Nat) :
    s.foldl step ⟨d, none, false⟩ = ⟨d, none, false⟩ := by
  induction h generalizing d with
  | nil => rfl
  | char _ plain ih =>
    rw [List.foldl_append, ih, List.foldl_cons, List.foldl_nil]
    exact step_of_isMark_eq_false plain rfl rfl
  | escape _ c ih =>
    rw [List.foldl_append, ih]
    rfl
  | @string s body q _ quote unclosed unescaped ih =>
    have hopen : step ⟨d, none, false⟩ q = ⟨d, some q, false⟩ := by
      have hslash := ne_backslash_of_isQuote quote
      rw [isQuote] at quote
      simp [step, hslash, quote]
    have hclose : step ⟨d, some q, false⟩ q = ⟨d, none, false⟩ := by
      simp [step, ne_backslash_of_isQuote quote]
    rw [List.foldl_append, ih, List.foldl_cons, hopen, List.foldl_append,
      foldl_step_quoted d unclosed, unescaped, List.foldl_cons, List.foldl_nil, hclose]
  | parens _ _ ih ihinside =>
    have hopen : step ⟨d, none, false⟩ '(' = ⟨d + 1, none, false⟩ := rfl
    rw [List.foldl_append, ih, List.foldl_cons, hopen, List.foldl_append, ihinside]
    rfl

theorem AtTop.foldl_step {s : Text} (h : AtTop s) : s.foldl step .start = .start := by
  induction h with
  | complete complete => exact complete.foldl_step 0
  | close _ back ih =>
    have hclose : step .start ')' = .start := rfl
    rw [List.foldl_append, ih, List.foldl_cons, hclose]
    exact back.foldl_step 0

/-! ## Reading a nesting -/

/-- How a text that leads to a nesting ends: with nothing open but parentheses, with a backslash behind
such a text, or with a string that is not closed. -/
inductive Reaches : Text → Nesting → Prop where
  | plain {d : Nat} {s : Text} (front : Opens d s) : Reaches s ⟨d, none, false⟩
  | escape {d : Nat} {s : Text} (front : Opens d s) : Reaches (s ++ ['\\']) ⟨d, none, true⟩
  | quoted {d : Nat} {s body : Text} {q : Char} (front : Opens d s) (quote : isQuote q = true)
      (unclosed : ¬ HasUnescaped q body) : Reaches (s ++ q :: body) ⟨d, some q, escapes body⟩

theorem isMark_eq_false {c : Char} (hslash : c ≠ '\\') (hquote : isQuote c = false) (hopen : c ≠ '(')
    (hclose : c ≠ ')') : isMark c = false := by
  rw [isQuote, Bool.or_eq_false_iff] at hquote
  simp [isMark, hslash, hquote, hopen, hclose]

/-- One character behind a text with only parentheses open. -/
theorem Opens.reaches_step {d : Nat} {s : Text} (h : Opens d s) (c : Char) :
    Reaches (s ++ [c]) (step ⟨d, none, false⟩ c) := by
  by_cases hslash : c = '\\'
  · subst hslash
    exact .escape h
  cases hquote : isQuote c with
  | true =>
    have hstep : step ⟨d, none, false⟩ c = ⟨d, some c, escapes []⟩ := by
      rw [isQuote] at hquote
      simp [step, hslash, hquote]
    rw [hstep]
    exact .quoted h hquote (by rintro ⟨a, b, hab, -⟩; simp at hab)
  | false =>
    by_cases hopen : c = '('
    · subst hopen
      exact .plain (.paren h .nil)
    by_cases hclose : c = ')'
    · subst hclose
      exact .plain h.close
    have hmark := isMark_eq_false hslash hquote hopen hclose
    rw [step_of_isMark_eq_false hmark rfl rfl]
    exact .plain (h.append (.char .nil hmark))

/-- One character more in a string that is not closed. -/
theorem reaches_step_quoted {d : Nat} {s body : Text} {q : Char} (h : Opens d s)
    (hquote : isQuote q = true) (hbody : ¬ HasUnescaped q body) (c : Char) :
    Reaches (s ++ q :: (body ++ [c])) (step ⟨d, some q, escapes body⟩ c) := by
  by_cases hclose : c = q ∧ escapes body = false
  · obtain ⟨rfl, hescapes⟩ := hclose
    have hstep : step ⟨d, some c, escapes body⟩ c = ⟨d, none, false⟩ := by
      simp [step, hescapes, ne_backslash_of_isQuote hquote]
    rw [hstep]
    exact .plain (h.append (.string .nil hquote hbody hescapes))
  · have hlonger : ¬ HasUnescaped q (body ++ [c]) := by
      rw [hasUnescaped_concat, not_or]
      exact ⟨hbody, hclose⟩
    have hstep : step ⟨d, some q, escapes body⟩ c = ⟨d, some q, escapes (body ++ [c])⟩ := by
      rw [← foldl_step_quoted d hlonger, List.foldl_append, foldl_step_quoted d hbody]
      rfl
    rw [hstep]
    exact .quoted h hquote hlonger

/-- **A step keeps the reading of the nesting.** -/
theorem Reaches.step {s : Text} {n : Nesting} (h : Reaches s n) (c : Char) :
    Reaches (s ++ [c]) (n.step c) := by
  cases h with
  | plain front => exact front.reaches_step c
  | escape front =>
    rw [List.append_assoc]
    exact .plain (front.append (.escape .nil c))
  | quoted front quote unclosed =>
    rw [List.append_assoc, List.cons_append]
    exact reaches_step_quoted front quote unclosed c

theorem reaches_foldl (s : Text) : Reaches s (s.foldl Nesting.step .start) := by
  induction s using List.reverseRecOn with
  | nil => exact .plain (.top (.complete .nil))
  | append_singleton s c ih =>
    rw [List.foldl_append, List.foldl_cons, List.foldl_nil]
    exact ih.step c

/-- **The top level, with and without following the text.** -/
theorem isTop_foldl_iff (s : Text) : (s.foldl Nesting.step .start).isTop = true ↔ AtTop s := by
  constructor
  · intro h
    have hreaches := reaches_foldl s
    generalize s.foldl Nesting.step .start = n at h hreaches
    simp only [isTop, Bool.and_eq_true, beq_iff_eq, Option.isNone_iff_eq_none,
      Bool.not_eq_true'] at h
    obtain ⟨⟨hdepth, hquote⟩, hescaped⟩ := h
    cases hreaches with
    | plain front =>
      obtain rfl : _ = 0 := hdepth
      cases front with
      | top top => exact top
    | escape front => cases hescaped
    | quoted front => cases hquote
  · intro h
    rw [h.foldl_step]
    rfl

end Nesting

end LessStyle
