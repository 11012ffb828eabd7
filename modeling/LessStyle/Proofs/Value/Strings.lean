import LessStyle.Proofs.Token.Shape
import LessStyle.Proofs.Value.Items
import LessStyle.Proofs.Value.Literal
import LessStyle.Proofs.Value.Nesting
import LessStyle.Proofs.Value.Part

/-!
# Strings in a source and in a value

A string of a source ends at the first quote of its own kind with an even number of backslashes before
it. The functions on values know nothing of this count: the mask and the scanner of items go forwards
and mark what a backslash escapes, and `split` does so with parentheses and both kinds of quotes in view.
They all see the same string (`strings_of_tokenize`). What they have to agree on is a body of a string,
`Token.IsBody`, and each is one lemma about it.
-/

namespace LessStyle

open Text
open Token (IsBody HasUnescaped)

section Quoted

variable {q : Char} {body : Text} (hq : isQuote q = true) (hbody : IsBody q body)
include hq

theorem isWhite_of_isQuote : isWhite q = false := by
  rw [isQuote, Bool.or_eq_true, beq_iff_eq, beq_iff_eq] at hq
  rcases hq with rfl | rfl <;> decide

theorem isMark_of_isQuote : Nesting.isMark q = true := by
  rw [isQuote] at hq
  simp only [Nesting.isMark, Bool.or_eq_true] at hq ⊢
  exact .inl (.inl (hq.elim (.inl ∘ .inr) .inr))

/-- A text between two quotes is trimmed. -/
theorem trim_quoted : trim (q :: (body ++ [q])) = q :: (body ++ [q]) := by
  have hwhite : ¬ isWhite q = true := by simp [isWhite_of_isQuote hq]
  rw [trim, trimStart, List.dropWhile_cons_of_neg hwhite, trimEnd, dropEndWhile, ← List.cons_append,
    List.reverse_append, List.reverse_singleton, List.singleton_append,
    List.dropWhile_cons_of_neg hwhite, List.reverse_cons, List.reverse_reverse]

include hbody

/-- Marking escapes forwards finds the end. -/
theorem closing?_body (rest : Text) : closing? q false (body ++ q :: rest) = some (body.length + 1) :=
  (Token.closing?_eq_some_iff (ne_backslash_of_isQuote hq) _ _).2
    ⟨body, rest, rfl, rfl, hbody.2, hbody.1⟩

/-- Counting backslashes backwards finds the same end, whatever stands before the string and behind
it. -/
theorem findUnescaped_body (front rest : Text) :
    Token.findUnescaped (utf8 (front ++ (q :: (body ++ [q]) ++ rest))) (code q) (byteLength front + 1) =
      some (byteLength front + 1 + byteLength body) := by
  have hlt : q.toNat < 128 := by
    rw [isQuote, Bool.or_eq_true, beq_iff_eq, beq_iff_eq] at hq
    rcases hq with rfl | rfl <;> decide
  have hone : q.utf8Size = 1 := (sees_beq hlt).utf8Size (by simp)
  have hsplit : front ++ (q :: (body ++ [q]) ++ rest) = (front ++ [q]) ++ (body ++ q :: rest) := by simp
  have heven : (Token.trailingBackslashes (front ++ [q]) % 2 == 1) = false := by
    rw [Token.trailingBackslashes_concat, if_neg (ne_backslash_of_isQuote hq)]
    rfl
  have hfind := Token.findUnescaped_utf8 hlt (ne_backslash_of_isQuote hq) (front ++ [q])
    (body ++ q :: rest)
  rw [heven, closing?_body hq hbody, ← hsplit, byteLength_append, byteLength_cons, hone,
    byteLength_nil, Option.map_some, List.take_length_add_append] at hfind
  obtain ⟨k, hk, hstop⟩ := Option.map_eq_some_iff.1 hfind
  rw [hk]
  simp only [List.take_succ_cons, List.take_zero, byteLength_append, byteLength_cons, byteLength_nil,
    hone] at hstop
  congr 1
  omega

theorem stringWidth_body : stringWidth q (body ++ [q]) = (body ++ [q]).length := by
  rw [stringWidth, closing?_body hq hbody]
  simp

theorem mask_quoted : mask (q :: (body ++ [q])) = spacesFor (q :: (body ++ [q])) := by
  have hwidth : literalWidth? q (body ++ [q]) = some (body ++ [q]).length := by
    rw [literalWidth?, if_pos hq, stringWidth_body hq hbody]
  rw [mask_of_some hwidth, List.take_length, List.drop_length, mask_nil, List.append_nil]

theorem scan_quoted :
    Item.scan (q :: (body ++ [q])) = [⟨.string, q :: (body ++ [q]), [], 0⟩] := by
  have hblank : isBlank q = false := by
    rw [Bool.eq_false_iff]
    intro hblank
    have hwhite := isWhite_of_isBlank hblank
    rw [isWhite_of_isQuote hq] at hwhite
    cases hwhite
  have hlex : Item.lexeme q (body ++ [q]) = (.string, (body ++ [q]).length, 0) := by
    rw [Item.lexeme, if_pos hq, stringWidth_body hq hbody]
  rw [Item.scan, Item.scanFrom_of_not_isBlank 0 _ hblank, Item.first, hlex]
  dsimp only
  rw [List.take_length, List.drop_length, Nat.sub_zero, List.drop_length, Item.scanFrom_nil]

/-- No character of a string separates. -/
theorem keeps_quoted (separators : List Char) :
    Nesting.Keeps separators .start (q :: (body ++ [q])) := by
  have hmark : ∀ n : Nesting, n.separates separators q = false := by
    intro n
    simp [Nesting.separates, isMark_of_isQuote hq]
  intro a c b h
  cases a with
  | nil =>
    obtain ⟨rfl, -⟩ := List.cons.inj h
    exact hmark _
  | cons d a =>
    obtain ⟨rfl, htail⟩ := List.cons.inj h
    rcases append_eq_append_cons_cases htail with ⟨more, rfl, -⟩ | ⟨more, -, hlast⟩
    · -- inside the quotes
      have hprefix : ¬ HasUnescaped q a := fun ⟨x, y, hxy, hx⟩ =>
        hbody.1 ⟨x, y ++ c :: more, by simp [hxy], hx⟩
      have hopen : Nesting.step .start q = ⟨0, some q, false⟩ := by
        have hslash := ne_backslash_of_isQuote hq
        rw [isQuote] at hq
        simp [Nesting.step, Nesting.start, hslash, hq]
      rw [List.foldl_cons, hopen, Nesting.foldl_step_quoted 0 hprefix]
      simp [Nesting.separates, Nesting.isTop]
    · obtain ⟨-, hsingle⟩ | ⟨-, hnone⟩ := List.append_eq_singleton_iff.1 hlast.symm
      · obtain ⟨rfl, -⟩ := List.cons.inj hsingle
        exact hmark _
      · cases hnone

theorem split_quoted (separators : List Char) :
    split separators (q :: (body ++ [q])) = [⟨0, q :: (body ++ [q])⟩] := by
  have hwhole := (Part.cut_segments separators .start 0 (q :: (body ++ [q]))).eq_of_keeps
    (keeps_quoted hq hbody separators)
  have hfront : (q :: (body ++ [q])).takeWhile isWhite = [] :=
    List.takeWhile_cons_of_neg (by simp [isWhite_of_isQuote hq])
  have htrim : Part.trim? ⟨0, q :: (body ++ [q])⟩ = some ⟨0, q :: (body ++ [q])⟩ := by
    simp [Part.trim?, trim_quoted hq, hfront]
  rw [split, hwhole, List.filterMap_cons, htrim]
  rfl

end Quoted

/-- **All scanners see the strings of the lexer.** Let `t` be a string among the tokens of a text. From
behind its first quote, the search in the bytes of the text that counts backslashes backwards ends at
its last byte. Taken as a value, the text of `t` is one item, its mask is spaces alone, and splitting it
gives the string as it is, whatever the separators. -/
theorem strings_of_tokenize {s : Text} {ts before after : List Token} {t : Token}
    (hts : Token.tokenize s = .ok ts) (hsplit : ts = before ++ t :: after)
    (hkind : t.kind = .string) :
    (∃ q ∈ t.text.head?, isQuote q = true ∧
      Token.findUnescaped s.utf8 (code q) (byteLength (Token.join before) + 1) =
        some (byteLength (Token.join before) + t.text.byteLength - 1)) ∧
    Item.scan t.text = [⟨.string, t.text, [], 0⟩] ∧
    mask t.text = List.replicate t.text.byteLength ' ' ∧
    ∀ separators, split separators t.text = [⟨0, t.text⟩] := by
  subst hsplit
  have hlex := Token.lexed_of_tokensFrom hts
  obtain ⟨c, r, n, hpiece, htext, -⟩ := hlex.exists_piece
  have hshape := hpiece.shape
  rw [hkind, ← htext] at hshape
  obtain ⟨q, body, hquote, hstring, hbody⟩ := hshape
  have hq : isQuote q = true := by
    rcases hquote with rfl | rfl <;> rfl
  have hs : s = Token.join before ++ (q :: (body ++ [q]) ++ Token.join after) := by
    rw [← hlex.join_eq, Token.join_append, Token.join_cons, hstring]
  have hone : q.utf8Size = 1 := by
    rcases hquote with rfl | rfl <;> rfl
  rw [hstring]
  refine ⟨⟨q, rfl, hq, ?_⟩, scan_quoted hq hbody, mask_quoted hq hbody, split_quoted hq hbody⟩
  rw [hs, findUnescaped_body hq hbody]
  simp only [byteLength_cons, byteLength_append, byteLength_nil, hone]
  congr 1
  omega

/-- A string that ends behind two backslashes, and one with both quotes inside. -/
def escapedQuotes : Text := "a: \"\\\\\" '\"\\'é';".toList

/-- The tokens before the second string. -/
def beforeMixed : List Token :=
  [⟨.word, ['a'], ⟨⟨1, 1⟩, ⟨1, 1⟩⟩⟩, ⟨.colon, [':'], ⟨⟨1, 2⟩, ⟨1, 2⟩⟩⟩,
    ⟨.space, [' '], ⟨⟨1, 3⟩, ⟨1, 3⟩⟩⟩, ⟨.string, "\"\\\\\"".toList, ⟨⟨1, 4⟩, ⟨1, 7⟩⟩⟩,
    ⟨.space, [' '], ⟨⟨1, 8⟩, ⟨1, 8⟩⟩⟩]

/-- The second string. -/
def mixedQuotes : Token := ⟨.string, "'\"\\'é'".toList, ⟨⟨1, 9⟩, ⟨1, 14⟩⟩⟩

theorem strings_of_tokenize_escaped :
    ∃ after, Token.tokenize escapedQuotes = .ok (beforeMixed ++ mixedQuotes :: after) ∧
      mixedQuotes.kind = .string ∧ byteLength (Token.join beforeMixed) = 8 ∧
      Token.findUnescaped escapedQuotes.utf8 (code '\'') 9 = some 14 ∧
      Item.scan mixedQuotes.text = [⟨.string, mixedQuotes.text, [], 0⟩] ∧
      mask mixedQuotes.text = List.replicate 7 ' ' ∧
      split ['é', '"'] mixedQuotes.text = [⟨0, mixedQuotes.text⟩] := by
  have hts : Token.tokenize escapedQuotes =
      .ok (beforeMixed ++ mixedQuotes :: [⟨.semicolon, [';'], ⟨⟨1, 15⟩, ⟨1, 15⟩⟩⟩]) := by
    decide +kernel
  obtain ⟨⟨q, hq, -, hfind⟩, hscan, hmask, hsplit⟩ := strings_of_tokenize hts rfl rfl
  obtain rfl : '\'' = q := Option.some.inj hq
  exact ⟨_, hts, rfl, rfl, hfind, hscan, hmask, hsplit ['é', '"']⟩

end LessStyle
