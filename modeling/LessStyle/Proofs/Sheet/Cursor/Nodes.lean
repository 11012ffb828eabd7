import LessStyle.Proofs.Sheet.Cursor
import LessStyle.Proofs.Sheet.Definition
import LessStyle.Proofs.Sheet.RoundTrip
import LessStyle.Proofs.Text.Utf8
import Mathlib.Data.List.Induction

/-!
# Nodes from indices

A loop that counts with an index takes the tokens that a function on the rest of the list takes, and a
slice is a part of that list. So every function of `Cursor` that builds a node has one lemma: it answers,
with the node of the list. The inside of a comment is cut out of a text. It is there because of the shape
of the token.
-/

namespace LessStyle

open Text
open Token (join slice?)

/-! ## Slices -/

section Slices

variable {ts : List Token} {a n : Nat}

theorem Token.slice?_add (h : a + n ≤ ts.length) :
    slice? ts a (a + n) = some ((ts.drop a).take n) := by
  rw [slice?, if_pos ⟨Nat.le_add_right a n, h⟩, Nat.add_sub_cancel_left]

theorem Token.slice?_zero (h : n ≤ ts.length) : slice? ts 0 n = some (ts.take n) := by
  rw [slice?, if_pos ⟨Nat.zero_le n, h⟩, List.drop_zero, Nat.sub_zero]

theorem Token.slice?_length (h : a ≤ ts.length) : slice? ts a ts.length = some (ts.drop a) := by
  rw [slice?, if_pos ⟨h, Nat.le_refl _⟩, ← List.length_drop, List.take_length]

theorem drop_eq_cons {t : Token} {us : List Token} (h : ts.drop a = t :: us) :
    ∃ ha : a < ts.length, ts[a] = t ∧ ts.drop (a + 1) = us := by
  have ha : a < ts.length := by
    rw [← List.drop_eq_nil_iff.not.trans Nat.not_le, h]
    exact List.cons_ne_nil _ _
  rw [List.drop_eq_getElem_cons ha] at h
  obtain ⟨ht, hus⟩ := List.cons.inj h
  exact ⟨ha, ht, hus⟩

theorem length_of_drop_eq_cons {t : Token} {us : List Token} (h : ts.drop a = t :: us) :
    ts.length = a + (us.length + 1) := by
  have hlen := congrArg List.length h
  rw [List.length_drop, List.length_cons] at hlen
  omega

/-- The tokens of a statement. -/
theorem Token.slice?_cons {first : Token} {rest : List Token} (h : ts.drop a = first :: rest)
    (hn : n ≤ rest.length) : slice? ts a (a + (n + 1)) = some (first :: rest.take n) := by
  have hlen := length_of_drop_eq_cons h
  rw [Token.slice?_add (by omega), h, List.take_succ_cons]

end Slices

namespace Cursor

/-! ## Loops -/

theorem collect_eq (p : Token → Bool) (ts : List Token) (i : Nat) (text : Text) :
    collect p ts i text =
      (text ++ join ((ts.drop i).takeWhile p), i + ((ts.drop i).takeWhile p).length) := by
  fun_induction collect p ts i text with
  | case1 i text h hp ih =>
    rw [ih, List.drop_eq_getElem_cons h, List.takeWhile_cons_of_pos hp, Token.join_cons,
      List.append_assoc, List.length_cons]
    congr 1
    omega
  | case2 i text h hp =>
    rw [List.drop_eq_getElem_cons h, List.takeWhile_cons_of_neg hp]
    simp
  | case3 i text h =>
    rw [List.drop_eq_nil_of_le (Nat.le_of_not_lt h)]
    simp

theorem throughColon_cons (t : Token) (ts : List Token) :
    (throughColon (t :: ts)).1 = t :: if t.kind = .colon then [] else (throughColon ts).1 := by
  rw [throughColon, throughColon]
  by_cases h : t.kind = .colon <;> simp [h]

theorem collectColon?_eq (ts : List Token) (i : Nat) (text : Text) :
    collectColon? ts i text =
      some (text ++ join (throughColon (ts.drop i)).1, i + (throughColon (ts.drop i)).1.length) := by
  fun_induction collectColon? ts i text with
  | case1 i text h ih =>
    have hlast : ts[i]? = some ts[i] := List.getElem?_eq_getElem h
    rw [Nat.psub_eq_some.2 (rfl : i + 1 = i + 1), List.drop_eq_getElem_cons h, throughColon_cons]
    simp only [Option.bind_eq_bind, Option.bind_some, hlast, ih]
    split
    · simp
    · rw [Token.join_cons, List.append_assoc, List.length_cons]
      congr 2
      omega
  | case2 i text h =>
    rw [List.drop_eq_nil_of_le (Nat.le_of_not_lt h)]
    simp [throughColon]

theorem splitTrivia_concat (ts : List Token) (t : Token) :
    (splitTrivia (ts ++ [t])).1 = if t.kind.isTrivia then (splitTrivia ts).1 else ts ++ [t] := by
  rw [splitTrivia, List.reverse_append, List.reverse_singleton, List.singleton_append,
    List.takeWhile_cons]
  split
  · have hle := (List.takeWhile_prefix (l := ts.reverse) (fun t : Token => t.kind.isTrivia)).length_le
    rw [List.length_reverse] at hle
    simp only [splitTrivia, List.length_append, List.length_reverse, List.length_cons, List.length_nil]
    rw [List.take_append_of_le_length (by omega)]
    congr 1
    omega
  · exact List.take_of_length_le (Nat.le_refl _)

/-- Going back leaves the blanks and comments at the end out. -/
theorem back?_eq {ts body : List Token} (low ahead : Nat) (h : body <+: ts.drop (low + ahead)) :
    back? ts low ahead (low + body.length) = some (low + (splitTrivia body).1.length) := by
  induction body using List.reverseRecOn with
  | nil =>
    cases low with
    | zero => rfl
    | succ low =>
      rw [List.length_nil, Nat.add_zero, back?, if_neg (Nat.lt_irrefl _)]
      rfl
  | append_singleton body t ih =>
    have ht : ts[low + body.length + ahead]? = some t := by
      obtain ⟨r, hr⟩ := h
      rw [Nat.add_right_comm, ← List.getElem?_drop, ← hr]
      simp
    have hbody : body <+: ts.drop (low + ahead) := (List.prefix_append body [t]).trans h
    rw [List.length_append, List.length_singleton, ← Nat.add_assoc, back?, if_pos (by omega), ht,
      splitTrivia_concat]
    simp only [Option.bind_eq_bind, Option.bind_some]
    split
    · exact ih hbody
    · simp [Nat.add_assoc]

/-! ## Comments -/

theorem padding?_eq (body : Text) : padding? body = some (Comment.padding body) := by
  rw [padding?, Comment.padding]
  dsimp only
  split
  · rfl
  · -- white space in front, the text, and white space behind it
    obtain ⟨right, hright⟩ := dropEndWhile_prefix isWhite body.trimStart
    have htext : body.trim ++ right = body.trimStart := hright
    have hbody : body.takeWhile isWhite ++ body.trimStart = body :=
      List.takeWhile_append_dropWhile
    generalize body.takeWhile isWhite = left at hbody ⊢
    generalize body.trimStart = behind at htext hbody ⊢
    generalize body.trim = text at htext ⊢
    subst htext
    have hleft : sliceBytes? 0 (byteLength left) body = some left := by
      rw [← hbody]
      exact sliceBytes?_left left _
    have hslice : sliceBytes? (byteLength left + byteLength text) (byteLength body) body =
        some right := by
      rw [← hbody, ← List.append_assoc, ← byteLength_append]
      exact sliceBytes?_right _ right
    have hdrop : body.drop (left.length + text.length) = right := by
      rw [← hbody, ← List.append_assoc, ← List.length_append, List.drop_left]
    have hsub : (byteLength body).psub (byteLength (text ++ right)) = some (byteLength left) := by
      rw [Nat.psub_eq_some, ← byteLength_append, hbody]
    rw [hsub, hdrop]
    simp only [Option.bind_eq_bind, Option.bind_some, hleft, hslice]
    rfl

theorem comment?_eq (before : Text) {t : Token} (hk : t.kind.isComment = true)
    (ho : t.kind.Outline t.text) : comment? before t = some (.ofToken before t) := by
  obtain ⟨kind, text, span⟩ := t
  cases kind with
  | lineComment =>
    obtain ⟨body, rfl⟩ := ho
    have hslice : sliceBytes? 2 (byteLength ('/' :: '/' :: body)) ('/' :: '/' :: body) = some body :=
      sliceBytes?_right ['/', '/'] body
    simp only [comment?, decide_true, if_true, Option.bind_eq_bind, Option.bind_some, hslice,
      padding?_eq]
    rfl
  | blockComment =>
    obtain ⟨body, rfl⟩ := ho
    have hsub : (byteLength ('/' :: '*' :: (body ++ ['*', '/']))).psub 2 =
        some (2 + byteLength body) := by
      have hmarks : byteLength ['/', '*'] = 2 ∧ byteLength ['*', '/'] = 2 := ⟨rfl, rfl⟩
      rw [Nat.psub_eq_some, show '/' :: '*' :: (body ++ ['*', '/']) =
        ['/', '*'] ++ (body ++ ['*', '/']) from rfl, byteLength_append, byteLength_append]
      omega
    have hslice : sliceBytes? 2 (2 + byteLength body) ('/' :: '*' :: (body ++ ['*', '/'])) =
        some body := sliceBytes?_append ['/', '*'] body ['*', '/']
    have hbody : (body ++ ['*', '/']).take ((body ++ ['*', '/']).length - 2) = body := by
      rw [List.length_append]
      exact List.take_left
    simp only [comment?, reduceCtorEq, decide_false, Bool.false_eq_true, if_false,
      Option.bind_eq_bind, Option.bind_some, hsub, hslice, padding?_eq, Comment.ofToken,
      List.drop_succ_cons, List.drop_zero, hbody]
    rfl
  | _ => cases hk

/-! ## Declarations and calls -/

theorem getElem?_length_cons (first : Token) (ts : List Token) :
    (first :: ts)[ts.length]? = some (ts.getLastD first) := by
  rw [List.getLastD_eq_getLast?, ← List.getLast?_cons, List.getLast?_eq_getElem?]
  rfl

theorem statementEnd?_eq {ts own body : List Token} {first : Token} {stop n : Nat}
    {semicolon : Option Token} (hsemicolon : ∀ t ∈ semicolon, ts[stop]? = some t)
    (hlast : own[n]? = some (body.getLastD first)) :
    statementEnd? ts stop semicolon.isSome own (n + 1) =
      some (statementEnd first body semicolon) := by
  cases semicolon with
  | none =>
    rw [statementEnd?, Nat.psub_eq_some.2 (rfl : n + 1 = n + 1)]
    simp [hlast, statementEnd]
  | some t => simp [statementEnd?, hsemicolon t rfl, statementEnd]

/-- The blanks and comments before a value, and the value. -/
theorem slice?_collect (own : List Token) {i : Nat} (hi : i ≤ own.length) (text : Text) :
    slice? own (collect (·.kind.isTrivia) own i text).2 own.length =
      some ((own.drop i).dropWhile (·.kind.isTrivia)) := by
  have hle := (List.takeWhile_prefix (l := own.drop i) (fun t : Token => t.kind.isTrivia)).length_le
  rw [List.length_drop] at hle
  rw [collect_eq, Token.slice?_length (by omega), ← List.drop_drop, drop_length_takeWhile]

theorem head?_eq (first : Token) (ts : List Token) :
    head? (first :: ts) = some (Declaration.head first ts) := by
  have hone : 1 ≤ (first :: ts).length := Nat.succ_le_succ (Nat.zero_le _)
  rw [head?, Declaration.head]
  simp only [List.getElem?_cons_zero, Option.bind_eq_bind, Option.bind_some]
  generalize (if first.kind = .atWord then first.text.cutAt? ':' else none) = cut
  obtain _ | ⟨prop, _ | ⟨c, value⟩⟩ := cut
  · -- through the property, and through the colon
    rw [collect_eq (!endsProperty ·)]
    simp only [List.drop_zero, Nat.zero_add, List.nil_append, collectColon?_eq, Option.bind_some,
      Option.pure_def, drop_length_takeWhile, List.isEmpty_nil, if_true]
    have hall := List.takeWhile_append_dropWhile (p := (!endsProperty ·)) (l := first :: ts)
    have hcolon := Declaration.throughColon_append ((first :: ts).dropWhile (!endsProperty ·))
    generalize (first :: ts).takeWhile (!endsProperty ·) = prop at hall ⊢
    generalize throughColon ((first :: ts).dropWhile (!endsProperty ·)) = split at hcolon ⊢
    rw [← hcolon, ← List.append_assoc] at hall
    have hdrop : (first :: ts).drop (prop.length + split.1.length) = split.2 := by
      rw [← hall, ← List.length_append, List.drop_left]
    have hle : prop.length + split.1.length ≤ (first :: ts).length := by
      rw [← hall, List.length_append, List.length_append]
      omega
    rw [slice?_collect _ hle, collect_eq, hdrop, Token.join_append]
    rfl
  · -- the first token ends with its colon
    simp only [Option.bind_some, List.isEmpty_nil, if_true, slice?_collect _ hone]
    rw [collect_eq]
    rfl
  · -- the first token has a part of the value
    simp only [Option.bind_some, List.isEmpty_cons, Bool.false_eq_true, if_false,
      Token.slice?_length hone]
    rfl

theorem declaration?_eq {ts rest : List Token} {first : Token} {pos n : Nat}
    {semicolon : Option Token} (before : Text) (h : ts.drop pos = first :: rest)
    (hn : n ≤ rest.length) (hsemicolon : ∀ t ∈ semicolon, ts[pos + (n + 1)]? = some t) :
    declaration? ts before pos (pos + (n + 1)) semicolon.isSome =
      some (.ofTokens before first (rest.take n) semicolon) := by
  have hend := statementEnd?_eq hsemicolon (getElem?_length_cons first (rest.take n))
  rw [declaration?, Token.slice?_cons h hn]
  simp only [Option.bind_eq_bind, Option.bind_some, head?_eq, List.length_cons, hend,
    List.getElem?_cons_zero]
  rfl

theorem call?_eq {ts rest : List Token} {first : Token} {pos n : Nat} {semicolon : Option Token}
    (d : Draft) (h : ts.drop pos = first :: rest) (hn : n ≤ rest.length)
    (hsemicolon : ∀ t ∈ semicolon, ts[pos + (n + 1)]? = some t) :
    call? ts d pos (pos + (n + 1)) semicolon.isSome =
      some (d.simple false first (rest.take n) semicolon) := by
  have hfirst : ts[pos]? = some first := by
    rw [← Nat.add_zero pos, ← List.getElem?_drop, h]
    rfl
  have hlast : ts[pos + n]? = some ((rest.take n).getLastD first) := by
    rw [← getElem?_length_cons, List.length_take_of_le hn, ← List.take_succ_cons, ← h]
    simp
  have hend := statementEnd?_eq hsemicolon hlast
  rw [Nat.add_assoc] at hend
  rw [call?, hfirst, Token.slice?_cons h hn, Draft.simple, if_neg (by simp)]
  simp only [Option.bind_eq_bind, Option.bind_some, hend]
  split <;> rfl

/-! ## Blocks -/

theorem map_length_cons (t : Token) (i : Nat) (us : Option (List Token)) :
    (us.map (t :: ·)).map (i + ·.length) = us.map (i + 1 + ·.length) := by
  cases us with
  | none => rfl
  | some us => simp [Nat.add_assoc, Nat.add_comm 1]

/-- At least one parenthesis is open whenever one is closed. -/
theorem matching?_eq (ts : List Token) (i depth : Nat) :
    matching? ts i (depth + 1) =
      some ((Mixin.inParens? depth (ts.drop i)).map (i + ·.length)) := by
  generalize hus : ts.drop i = us
  fun_induction Mixin.inParens? depth us generalizing i with
  | case1 depth =>
    rw [matching?, dif_neg (Nat.not_lt.2 (List.drop_eq_nil_iff.1 hus))]
    rfl
  | case2 t us hk =>
    obtain ⟨h, ht, -⟩ := drop_eq_cons hus
    rw [matching?, dif_pos h]
    simp [ht, hk]
  | case3 t us depth hk ih =>
    obtain ⟨h, ht, hus⟩ := drop_eq_cons hus
    rw [matching?, dif_pos h, map_length_cons, ← ih _ hus]
    simp [ht, hk]
  | case4 depth t us hk ih =>
    obtain ⟨h, ht, hus⟩ := drop_eq_cons hus
    rw [matching?, dif_pos h, map_length_cons, ← ih _ hus]
    simp [ht, hk]
  | case5 t us depth hzero hsucc hopen ih =>
    obtain ⟨h, ht, hus⟩ := drop_eq_cons hus
    have hclose : t.kind ≠ .closeParen := by
      intro hk
      cases depth with
      | zero => exact hzero hk rfl
      | succ depth => exact hsucc depth hk rfl
    rw [matching?, dif_pos h, map_length_cons, ← ih _ hus]
    simp [ht]

theorem definition?_eq (selector : List Token) :
    definition? selector = some (Mixin.definition? selector) := by
  have hwords := (List.takeWhile_prefix (l := selector)
    (fun t : Token => decide (t.kind = .word))).length_le
  rw [definition?, Mixin.definition?]
  by_cases hname : Mixin.isName (Mixin.leadingName selector) = true
  · simp only [hname, Bool.not_true, Bool.false_eq_true, if_false, if_true,
      Token.slice?_length hwords, Option.bind_eq_bind, Option.bind_some, drop_length_takeWhile]
    have hdrop : selector.drop ((selector.takeWhile (·.kind = .word)).length +
        ((selector.dropWhile (·.kind = .word)).takeWhile (·.kind = .space)).length) =
        (selector.dropWhile (·.kind = .word)).dropWhile (·.kind = .space) := by
      rw [← List.drop_drop, drop_length_takeWhile, drop_length_takeWhile]
    generalize (selector.takeWhile (·.kind = .word)).length +
      ((selector.dropWhile (·.kind = .word)).takeWhile (·.kind = .space)).length = paren at hdrop ⊢
    rw [← hdrop, ← List.head?_drop]
    cases hafter : selector.drop paren with
    | nil => rfl
    | cons t ts =>
      obtain ⟨h, ht, hts⟩ := drop_eq_cons hafter
      by_cases hk : t.kind = .openParen
      · have hmatching : matching? selector paren 0 =
            some ((Mixin.inParens? 0 ts).map (paren + 1 + ·.length)) := by
          rw [matching?, dif_pos h, ht, ← hts, ← matching?_eq selector (paren + 1) 0]
          simp [hk]
        simp only [List.head?_cons, hk, ne_eq, not_true_eq_false, if_false, if_true, hmatching,
          Option.bind_some]
        cases hinner : Mixin.inParens? 0 ts with
        | none => rfl
        | some inner =>
          have hfront := Mixin.isPrefix_of_inParens? hinner
          have hslice : slice? selector (paren + 1) (paren + 1 + inner.length) = some inner := by
            have hlen := hfront.length_le
            rw [← hts, List.length_drop] at hlen
            rw [Token.slice?_add (by omega), hts, ← List.prefix_iff_eq_take.1 hfront]
          simp only [Option.map_some, hslice, Option.bind_some]
          rfl
      · simp [hk]
  · simp [hname]

theorem block?_eq {ts rest : List Token} {first : Token} {pos n : Nat} (d : Draft)
    (h : ts.drop pos = first :: rest) (hn : n ≤ rest.length) :
    block? ts d pos (pos + (n + 1)) = some (d.enterBlock first (rest.take n)) := by
  rw [block?, Token.slice?_cons h hn, Draft.enterBlock]
  generalize rest.take n = body
  have hsplit := splitTrivia_append (first :: body)
  have hback : back? (first :: body) 0 0 (first :: body).length =
      some (splitTrivia (first :: body)).1.length := by
    have hall : first :: body <+: (first :: body).drop (0 + 0) := List.prefix_refl _
    have hback := back?_eq 0 0 hall
    rwa [Nat.zero_add, Nat.zero_add] at hback
  generalize splitTrivia (first :: body) = split at hsplit hback ⊢
  have hselector : slice? (first :: body) 0 split.1.length = some split.1 := by
    rw [← hsplit, Token.slice?_zero (by simp), List.take_left]
  have hbetween : slice? (first :: body) split.1.length (first :: body).length = some split.2 := by
    rw [← hsplit, Token.slice?_length (by simp), List.drop_left]
  simp only [Option.bind_eq_bind, Option.bind_some, hback, hselector, List.getElem?_cons_zero,
    definition?_eq, hbetween]
  rfl

/-! ## At-rules -/

theorem atRuleOf?_eq (before : Text) (t : Token) (params : List Token) :
    atRuleOf? before t (t.text.drop 1) params = some (.ofTokens before t params) := by
  have hlead := List.takeWhile_append_dropWhile (p := fun t : Token => t.kind = .space) (l := params)
  have htail := take_append_reverse_takeWhile (·.kind = .space)
    (params.dropWhile fun t : Token => t.kind = .space)
  have hdrop : slice? params (params.takeWhile fun t : Token => t.kind = .space).length
      params.length = some (params.dropWhile fun t : Token => t.kind = .space) := by
    rw [Token.slice?_length (List.takeWhile_prefix _).length_le, drop_length_takeWhile]
  rw [atRuleOf?, AtRule.ofTokens]
  simp only [hdrop, Option.bind_eq_bind, Option.bind_some]
  -- blanks, the parameters, and blanks
  generalize params.takeWhile (fun t : Token => t.kind = .space) = lead at hlead ⊢
  generalize params.dropWhile (fun t : Token => t.kind = .space) = tail at hlead htail ⊢
  generalize tail.reverse.takeWhile (fun t : Token => t.kind = .space) = trail at htail ⊢
  generalize tail.take (tail.length - trail.reverse.length) = body at htail ⊢
  have hparams : lead ++ (body ++ trail.reverse) = params := by rw [htail, hlead]
  have hlen : lead.length + body.length + trail.length = params.length := by
    rw [← hparams]
    simp [Nat.add_assoc]
  have hbody : slice? params lead.length (lead.length + body.length) = some body := by
    rw [Token.slice?_add (by omega), ← hparams, List.drop_left, List.take_left]
  have hfront : slice? params 0 lead.length = some lead := by
    rw [Token.slice?_zero (by omega), ← hparams, List.take_left]
  have hback : slice? params (lead.length + body.length) params.length = some trail.reverse := by
    rw [Token.slice?_length (by omega), ← hparams, ← List.append_assoc, ← List.length_append,
      List.drop_left]
  simp only [Nat.psub_eq_some.2 hlen, Option.bind_some, hbody, hfront, hback]
  rfl

end Cursor

end LessStyle
