import LessStyle.Proofs.Token.ByteSearch

/-!
# The scanner on bytes cuts as the lexer does

Whatever the text, the scanner on bytes reaches the end of its loop with the answer of `tokenize`, and
no cut on the way fails (`Scanner.yields_run`). The proof goes branch by branch: each search among the
bytes ends at the byte length of the text that `lexeme` takes, so all offsets of cuts are offsets of
characters. `Cutting.Yields` collects these offsets.
-/

namespace LessStyle.Token

open Text

/-! ## Cuts at characters -/

namespace Cutting

/-- The computation answers with `a`, and all offsets at which it cuts `s` are offsets of characters
or the end. -/
def Yields (s : Text) {α : Type} (m : Cutting α) (a : α) : Prop :=
  ∃ new : List Nat, (∀ n ∈ new, (s.splitBytes? n).isSome = true) ∧
    ∀ cuts, m.run cuts = some (a, cuts ++ new)

variable {s : Text} {α β : Type}

theorem Yields.cast {m : Cutting α} {a b : α} (hm : Yields s m a) (h : a = b) : Yields s m b :=
  h ▸ hm

theorem yields_pure (a : α) : Yields s (pure a) a :=
  ⟨[], by simp, fun cuts => by rw [List.append_nil]; rfl⟩

theorem yields_of_eq {a b : α} (h : a = b) : Yields s (pure a) b :=
  (yields_pure a).cast h

theorem Yields.bind {m : Cutting α} {f : α → Cutting β} {a : α} {b : β} (hm : Yields s m a)
    (hf : Yields s (f a) b) : Yields s (m >>= f) b := by
  obtain ⟨new₁, h₁, hm⟩ := hm
  obtain ⟨new₂, h₂, hf⟩ := hf
  refine ⟨new₁ ++ new₂, fun n hn => ?_, fun cuts => ?_⟩
  · exact (List.mem_append.1 hn).elim (h₁ n) (h₂ n)
  · rw [StateT.run_bind, hm, Option.bind_eq_bind, Option.bind_some, hf, List.append_assoc]

theorem yields_slice (x y z : Text) (h : x ++ (y ++ z) = s) :
    Yields s (slice s (byteLength x) (byteLength x + byteLength y)) y := by
  subst h
  refine ⟨[byteLength x, byteLength x + byteLength y], fun n hn => ?_, fun cuts => ?_⟩
  · rw [List.mem_cons, List.mem_singleton] at hn
    rcases hn with rfl | rfl
    · rw [splitBytes?_append]
      rfl
    · rw [← byteLength_append, ← List.append_assoc, splitBytes?_append]
      rfl
  · rw [StateT.run, slice, sliceBytes?_append]
    rfl

theorem yields_sliceFrom (x y : Text) (h : x ++ y = s) :
    Yields s (sliceFrom s (byteLength x)) y := by
  have hlen : s.byteLength = byteLength x + byteLength y := by rw [← h, byteLength_append]
  rw [sliceFrom, hlen]
  exact yields_slice x y [] (by rw [List.append_nil, h])

theorem yields_bytesFrom (x y : Text) (h : x ++ y = s) :
    Yields s (bytesFrom s.utf8 (byteLength x)) y.utf8 := by
  subst h
  refine ⟨[byteLength x], fun n hn => ?_, fun cuts => ?_⟩
  · rw [List.mem_singleton.1 hn, splitBytes?_append]
    rfl
  · rw [StateT.run, bytesFrom, if_pos (by simp), drop_utf8_append]

end Cutting

namespace Scanner

open Cutting

/-! ## The place of the scanner -/

/-- The scanner stands between `p` and `r`, the two sides of the text, and knows of the tokens so far
what the context says. -/
structure At (s p r : Text) (cx : Context) (l : Scanner) : Prop where
  text : p ++ r = s
  pos : l.pos = byteLength p
  openParens : l.openParens = cx.depth
  last : l.lastText?.getD [] = cx.last

/-- Where a token ends that begins with `c` after `p`, counted in bytes: `r` is the text after `c`, and
the width of the token is given as `lexeme` gives it. -/
def ending (p : Text) (c : Char) (r : Text) : Except Fault (Kind × Nat) → Answer
  | .ok (kind, n) => .ok (kind, byteLength (p ++ c :: r.take n))
  | .error fault => .error fault

variable {s p r : Text} {cx : Context} {l : Scanner} {c : Char}

theorem At.text_concat (h : At s p (c :: r) cx l) : (p ++ [c]) ++ r = s := by
  rw [← h.text, List.append_assoc, List.singleton_append]

/-- Past a character of one byte. -/
theorem At.pos_succ (h : At s p (c :: r) cx l) (hc : c.utf8Size = 1) :
    l.pos + 1 = byteLength (p ++ [c]) := by
  rw [h.pos, byteLength_append, byteLength_cons, hc, byteLength_nil]

theorem At.drop_succ (h : At s p (c :: r) cx l) (hc : c.utf8Size = 1) :
    s.utf8.drop (l.pos + 1) = r.utf8 := by
  rw [h.pos_succ hc, ← h.text_concat, drop_utf8_append]

/-- Past two characters of one byte each. -/
theorem At.pos_add_two {d : Char} (h : At s p (c :: d :: r) cx l) (hc : c.utf8Size = 1)
    (hd : d.utf8Size = 1) : l.pos + 2 = byteLength (p ++ [c, d]) := by
  rw [h.pos, byteLength_append, byteLength_cons, byteLength_cons, hc, hd, byteLength_nil]

theorem At.text_two {d : Char} (h : At s p (c :: d :: r) cx l) : (p ++ [c, d]) ++ r = s := by
  rw [← h.text, List.append_assoc]
  rfl

/-- The byte after a character of one byte. -/
theorem At.peek (h : At s p (c :: r) cx l) (hc : c.utf8Size = 1) :
    s.utf8[l.pos + 1]? = r.utf8.head? := by
  rw [← h.drop_succ hc, List.head?_drop]

theorem ending_ok (p : Text) (c : Char) (r : Text) (kind : Kind) (n : Nat) :
    ending p c r (.ok (kind, n)) = .ok (kind, byteLength (p ++ [c]) + byteLength (r.take n)) := by
  rw [ending, ← byteLength_append, List.append_assoc, List.singleton_append]

theorem ending_single (h : At s p (c :: r) cx l) (hc : c.utf8Size = 1) (kind : Kind) :
    (.ok (kind, l.pos + 1) : Answer) = ending p c r (.ok (kind, 0)) := by
  rw [ending_ok, h.pos_succ hc]
  rfl

/-- A piece that has to be closed: the offset of the closing byte and the width agree. -/
theorem upTo_eq {kind : Kind} {fault : Fault} {extra more : Nat} {close width : Option Nat}
    (h : close.map (· + extra) = width.map fun n => byteLength (p ++ c :: r.take (n + more))) :
    upTo kind extra fault close = ending p c r (closed fault kind more width) := by
  cases close with
  | none =>
    cases width with
    | none => rfl
    | some n => simp at h
  | some k =>
    cases width with
    | none => simp at h
    | some n =>
      have hk : k + extra = byteLength (p ++ c :: r.take (n + more)) := Option.some.inj h
      rw [upTo, closed, ending, hk]

/-! ## Branches -/

theorem yields_space (h : At s p (c :: r) cx l) (hc : isBlank c = true) :
    Yields s (pure (.ok (.space, l.pos + ((s.utf8.drop l.pos).takeWhile isSpaceByte).length)))
      (ending p c r (.ok (.space, (r.takeWhile isBlank).length))) := by
  refine yields_of_eq ?_
  rw [h.pos, ← h.text, drop_utf8_append, sees_isSpaceByte.takeWhile_utf8, length_utf8,
    List.takeWhile_cons_of_pos hc, ← byteLength_append, ending, take_length_takeWhile]

/-- A quoted piece, from one quote to the next that no backslash escapes. -/
theorem upTo_findUnescaped {q : Char} (h : At s p (c :: r) cx l) (hc : c.utf8Size = 1)
    (hne : c ≠ '\\') (hq : q.toNat < 128) (hq' : q ≠ '\\') (kind : Kind) (fault : Fault) :
    upTo kind 1 fault (findUnescaped s.utf8 (code q) (l.pos + 1)) =
      ending p c r (closed fault kind 0 (closing? q false r)) := by
  refine upTo_eq ?_
  have hfind := findUnescaped_utf8 hq hq' (p ++ [c]) r
  rw [h.text_concat, ← h.pos_succ hc, trailingBackslashes_concat, if_neg hne] at hfind
  rw [hfind]
  simp

theorem mayBeginUrl_head? (cx : Context) (r : Text) (hlast : l.lastText?.getD [] = cx.last) :
    (l.lastText? == some ['u', 'r', 'l'] && mayBeginUrl r.utf8.head?) = opensUrl cx r := by
  have hurl : (l.lastText? == some ['u', 'r', 'l']) = (cx.last == ['u', 'r', 'l']) := by
    rw [← hlast]
    cases l.lastText? <;> rfl
  rw [hurl]
  cases r with
  | nil => rfl
  | cons d r =>
    obtain ⟨b, bs, hb, hbs⟩ := exists_utf8_cons d r
    rw [opensUrl, hbs, List.head?_cons, mayBeginUrl, sees_isSpaceByte.head hb,
      (sees_isOneOf (by decide)).head hb, List.contains_cons, List.contains_cons,
      List.contains_nil, Bool.or_false]

theorem yields_readOpenParen (h : At s p ('(' :: r) cx l) :
    Yields s (readOpenParen s l) (ending p '(' r (parenLexeme cx r)) := by
  have hone : '('.utf8Size = 1 := by decide
  rw [readOpenParen, h.peek hone, mayBeginUrl_head? cx r h.last]
  cases hurl : opensUrl cx r with
  | true =>
    refine yields_of_eq ?_
    rw [upTo_findUnescaped h hone (by decide) (by decide) (by decide), parenLexeme, if_pos hurl]
    cases closing? ')' false r <;> rfl
  | false =>
    rw [h.pos_succ hone]
    refine (yields_bytesFrom _ _ h.text_concat).bind ?_
    rw [(sees_beq (by decide)).findIdx?_utf8]
    cases hk : r.findIdx? (· == ')') with
    | none =>
      refine yields_of_eq ?_
      rw [parenLexeme_of_find_none hurl hk, ← h.pos_succ hone]
      exact ending_single h hone .openParen
    | some k =>
      rw [parenLexeme_of_find hurl hk]
      refine (yields_slice (p ++ ['(']) (r.take k) (r.drop k) ?_).bind ?_
      · rw [List.take_append_drop, h.text_concat]
      · cases keepsStructure (r.take k) with
        | true =>
          refine yields_of_eq ?_
          rw [← h.pos_succ hone]
          exact ending_single h hone .openParen
        | false =>
          refine yields_of_eq ?_
          rw [if_neg Bool.false_ne_true, ending_ok,
            (sees_beq (by decide)).byteLength_take_succ hk, Nat.add_assoc]

theorem yields_readEscape (h : At s p ('\\' :: r) cx l) :
    Yields s (readEscape s l) (ending p '\\' r (.ok (.word, escapeWidth r))) := by
  have hone : '\\'.utf8Size = 1 := by decide
  have hsees : Sees (· == code '\\') (· == '\\') := sees_beq (by decide)
  have hlen : byteLength (r.takeWhile (· == '\\')) = (r.takeWhile (· == '\\')).length :=
    hsees.byteLength_eq (List.all_eq_true.1 List.all_takeWhile)
  have hrun : ((s.utf8.drop (l.pos + 1)).takeWhile (· == code '\\')).length =
      (r.takeWhile (· == '\\')).length := by
    rw [h.drop_succ hone, hsees.takeWhile_utf8, length_utf8, hlen]
  have hstop : l.pos + (r.takeWhile (· == '\\')).length + 1 =
      byteLength (p ++ ['\\'] ++ r.take (r.takeWhile (· == '\\')).length) := by
    rw [take_length_takeWhile, byteLength_append, hlen, ← h.pos_succ hone, Nat.add_right_comm]
  rw [readEscape, hrun, escapeWidth, hstop]
  generalize (r.takeWhile (· == '\\')).length = run
  have hword : (.ok (.word, byteLength (p ++ ['\\'] ++ r.take run)) : Answer) =
      ending p '\\' r (.ok (.word, run)) := by
    rw [ending_ok, byteLength_append]
  by_cases heven : run % 2 = 0
  · rw [if_pos heven, if_pos (beq_iff_eq.2 heven)]
    refine (yields_sliceFrom _ (r.drop run) ?_).bind ?_
    · rw [List.append_assoc, List.take_append_drop, h.text_concat]
    · cases hdrop : r.drop run with
      | nil => exact yields_of_eq hword
      | cons c t =>
        dsimp only
        split
        · exact yields_of_eq hword
        · refine yields_of_eq ?_
          rw [ending_ok, List.take_add, hdrop, List.take_succ_cons, List.take_zero,
            byteLength_append, byteLength_append (r.take run), byteLength_cons, byteLength_nil,
            Nat.add_assoc, Nat.add_zero]
  · rw [if_neg heven, if_neg (by simpa using heven)]
    exact yields_of_eq hword

theorem yields_readInterpolation (h : At s p ('@' :: '{' :: r) cx l) :
    Yields s (readInterpolation s l)
      (ending p '@' ('{' :: r) (closed .unclosedInterpolation .word 1 (through? '}' r))) := by
  rw [readInterpolation, h.pos_add_two (by decide) (by decide)]
  refine (yields_bytesFrom _ r h.text_two).bind (yields_of_eq (upTo_eq ?_))
  rw [(sees_beq (by decide)).findIdx?_utf8, through?]
  cases hk : r.findIdx? (· == '}') with
  | none => rfl
  | some k =>
    have hclose := (sees_beq (by decide)).byteLength_take_succ hk
    simp only [Option.map_some, List.take_succ_cons, byteLength_append, byteLength_cons,
      byteLength_nil, hclose]
    simp only [Nat.add_assoc, Nat.zero_add]

theorem yields_readAtWord (h : At s p ('@' :: r) cx l) :
    Yields s (readAtWord s l) (ending p '@' r
      (if cx.depth > 0 then
        .ok (.param (endsWith ('@' :: r.take (widthUntil endsAtWord r)) ['.', '.', '.']),
          widthUntil endsAtWord r)
      else .ok (.atWord, widthUntil endsAtWord r))) := by
  have hone : '@'.utf8Size = 1 := by decide
  have hstop : l.pos + 1 + bytesUntil endsAtWordBytes (s.utf8.drop (l.pos + 1)) =
      byteLength (p ++ '@' :: r.take (widthUntil endsAtWord r)) := by
    rw [h.drop_succ hone,
      bytesUntil_utf8 endsAtWordBytes_utf8 fun _ => endsAtWordBytes_high,
      h.pos_succ hone, ← byteLength_append, List.append_assoc, List.singleton_append]
  rw [readAtWord, hstop, h.openParens]
  by_cases hdepth : cx.depth > 0
  · rw [if_pos hdepth, if_pos hdepth, h.pos, byteLength_append]
    refine (yields_slice p _ (r.drop (widthUntil endsAtWord r)) ?_).bind (yields_of_eq ?_)
    · rw [List.cons_append, List.take_append_drop, h.text]
    · rw [ending, byteLength_append]
  · rw [if_neg hdepth, if_neg hdepth]
    exact yields_pure _

theorem yields_readBlockComment (h : At s p ('/' :: '*' :: r) cx l) :
    Yields s (readBlockComment s l)
      (ending p '/' ('*' :: r) (closed .unclosedComment .blockComment 3 (find? ['*', '/'] r))) := by
  rw [readBlockComment, h.pos_add_two (by decide) (by decide)]
  refine (yields_sliceFrom _ r h.text_two).bind (yields_of_eq (upTo_eq ?_))
  rw [findOffset?]
  cases hk : find? ['*', '/'] r with
  | none => rfl
  | some k =>
    have htake : r.take (k + 2) = r.take k ++ ['*', '/'] := take_find?_add hk
    have hclose : byteLength (r.take (k + 2)) = byteLength (r.take k) + 2 := by
      rw [htake, byteLength_append]
      rfl
    simp only [Option.map_some, List.take_succ_cons, byteLength_append, byteLength_cons,
      byteLength_nil, hclose]
    simp only [Nat.add_assoc, Nat.zero_add]

theorem yields_readLineComment (h : At s p ('/' :: '/' :: r) cx l) :
    Yields s (readLineComment s l)
      (ending p '/' ('/' :: r) (.ok (.lineComment, 1 + (r.takeWhile (· != '\n')).length))) := by
  have hend : ending p '/' ('/' :: r) (.ok (.lineComment, 1 + (r.takeWhile (· != '\n')).length)) =
      .ok (.lineComment, byteLength (p ++ ['/', '/']) + byteLength (r.takeWhile (· != '\n'))) := by
    rw [Nat.add_comm 1, ending, List.take_succ_cons, take_length_takeWhile, ← byteLength_append,
      List.append_assoc]
    rfl
  rw [readLineComment, h.pos_add_two (by decide) (by decide), hend, takeWhile_bne_eq_take]
  refine (yields_sliceFrom _ r h.text_two).bind ?_
  rw [findOffset?]
  cases find? ['\n'] r with
  | none =>
    refine yields_of_eq ?_
    rw [← h.text_two, byteLength_append, Option.getD_none, List.take_length]
  | some k => exact yields_pure _

theorem yields_word {b : UInt8} {bs : List UInt8} (h : At s p (c :: r) cx l)
    (hb : String.utf8EncodeChar c = b :: bs) :
    Yields s (pure (.ok (.word, l.pos + 1 + bytesUntil endsWordBytes (s.utf8.drop (l.pos + 1)))))
      (ending p c r (.ok (.word, widthUntil endsWord r))) := by
  have hdrop : s.utf8.drop (l.pos + 1) = bs ++ r.utf8 := by
    rw [h.pos, ← List.drop_drop, ← h.text, drop_utf8_append, utf8_cons, hb]
    rfl
  have hsize : c.utf8Size = bs.length + 1 := by
    rw [← String.length_utf8EncodeChar, hb, List.length_cons]
  have hhigh : ∀ d ∈ bs, ∀ ds, endsWordBytes (d :: ds) = false := by
    intro d hd ds
    by_cases hc : c.toNat < 128
    · rw [encode_of_lt hc] at hb
      obtain ⟨-, rfl⟩ := List.cons.inj hb
      cases hd
    · refine endsWordBytes_high ds (le_of_mem_encode (Nat.le_of_not_lt hc) ?_)
      rw [hb]
      exact List.mem_cons_of_mem b hd
  refine yields_of_eq ?_
  rw [hdrop, bytesUntil_append _ hhigh,
    bytesUntil_utf8 endsWordBytes_utf8 fun _ => endsWordBytes_high, ending_ok,
    byteLength_append, byteLength_cons, hsize, h.pos, byteLength_nil]
  congr 2
  omega

/-- What an `@` begins, if no brace follows. -/
theorem lexeme_at (cx : Context) (h : r.head? ≠ some '{') :
    lexeme cx '@' r =
      if cx.depth > 0 then
        .ok (.param (endsWith ('@' :: r.take (widthUntil endsAtWord r)) ['.', '.', '.']),
          widthUntil endsAtWord r)
      else .ok (.atWord, widthUntil endsAtWord r) := by
  cases r with
  | nil => rfl
  | cons d r =>
    have hd : d ≠ '{' := fun hd => h (congrArg some hd)
    simp [lexeme, isBlank, hd]

/-- What a slash begins, if it begins no comment. -/
theorem lexeme_slash (cx : Context) (hstar : r.head? ≠ some '*') (hslash : r.head? ≠ some '/') :
    lexeme cx '/' r = .ok (.word, widthUntil endsWord r) := by
  cases r with
  | nil => rfl
  | cons d r =>
    have hd₁ : d ≠ '*' := fun hd => hstar (congrArg some hd)
    have hd₂ : d ≠ '/' := fun hd => hslash (congrArg some hd)
    simp [lexeme, isBlank, hd₁, hd₂]

/-- What an `@` begins. -/
theorem yields_at (h : At s p ('@' :: r) cx l) :
    Yields s
      (if s.utf8[l.pos + 1]? == some (code '{') then readInterpolation s l else readAtWord s l)
      (ending p '@' r (lexeme cx '@' r)) := by
  rw [h.peek (by decide), head?_utf8 (by decide)]
  by_cases hr : r.head? = some '{'
  · obtain ⟨r, rfl⟩ := List.head?_eq_some_iff.1 hr
    exact yields_readInterpolation h
  · rw [if_neg (by simpa using hr), lexeme_at cx hr]
    exact yields_readAtWord h

/-- What a slash begins. -/
theorem yields_slash (h : At s p ('/' :: r) cx l) :
    Yields s
      (if s.utf8[l.pos + 1]? == some (code '*') then readBlockComment s l
      else if s.utf8[l.pos + 1]? == some (code '/') then readLineComment s l
      else pure (.ok (.word, l.pos + 1 + bytesUntil endsWordBytes (s.utf8.drop (l.pos + 1)))))
      (ending p '/' r (lexeme cx '/' r)) := by
  rw [h.peek (by decide), head?_utf8 (by decide), head?_utf8 (by decide)]
  by_cases hstar : r.head? = some '*'
  · obtain ⟨r, rfl⟩ := List.head?_eq_some_iff.1 hstar
    exact yields_readBlockComment h
  by_cases hslash : r.head? = some '/'
  · obtain ⟨r, rfl⟩ := List.head?_eq_some_iff.1 hslash
    exact yields_readLineComment h
  rw [if_neg (by simpa using hstar), if_neg (by simpa using hslash), lexeme_slash cx hstar hslash]
  exact yields_word h (encode_of_lt (by decide))

theorem lexeme_of_isBlank (cx : Context) (r : Text) (hblank : isBlank c = true) :
    lexeme cx c r = .ok (.space, (r.takeWhile isBlank).length) := by
  unfold lexeme
  rw [if_pos hblank]

/-- The characters other than blanks that do not begin a plain word. -/
def marks : List Char := ['{', '}', ':', ';', ',', '(', ')', '\'', '"', '\\', '@', '/']

theorem toNat_lt_of_mem_marks {q : Char} (hq : q ∈ marks) : q.toNat < 128 := by
  have hall : marks.all (·.toNat < 128) = true := by decide
  exact of_decide_eq_true (List.all_eq_true.1 hall q hq)

theorem lexeme_of_notMem_marks (cx : Context) (r : Text) (hblank : isBlank c = false)
    (hc : c ∉ marks) : lexeme cx c r = .ok (.word, widthUntil endsWord r) := by
  unfold lexeme
  rw [hblank, if_neg Bool.false_ne_true]
  split <;> first | rfl | exact absurd (by decide) hc

theorem answer_of_notMem_marks (s : Text) (l : Scanner) {b : UInt8} (hspace : isSpaceByte b = false)
    (hb : ∀ q ∈ marks, (b == code q) = false) :
    answer s l b =
      pure (.ok (.word, l.pos + 1 + bytesUntil endsWordBytes (s.utf8.drop (l.pos + 1)))) := by
  simp only [marks, List.forall_mem_cons] at hb
  simp [answer, hspace, hb]

/-- **What begins at a character ends where `lexeme` says**, and is found by cuts at characters. -/
theorem yields_answer {b : UInt8} {bs : List UInt8} (h : At s p (c :: r) cx l)
    (hb : String.utf8EncodeChar c = b :: bs) :
    Yields s (answer s l b) (ending p c r (lexeme cx c r)) := by
  have hspace : isSpaceByte b = isBlank c := sees_isSpaceByte.head hb
  cases hblank : isBlank c with
  | true =>
    rw [lexeme_of_isBlank cx r hblank, answer, hspace, if_pos hblank]
    exact yields_space h hblank
  | false =>
    by_cases hc : c ∈ marks
    · obtain rfl := eq_code hb (toNat_lt_of_mem_marks hc)
      have hone : c.utf8Size = 1 := (sees_beq (toNat_lt_of_mem_marks hc)).utf8Size (beq_self_eq_true c)
      simp only [marks, List.mem_cons, List.not_mem_nil, or_false] at hc
      rcases hc with rfl | rfl | rfl | rfl | rfl | rfl | rfl | rfl | rfl | rfl | rfl | rfl
      · exact yields_of_eq (ending_single h hone .openBrace)
      · exact yields_of_eq (ending_single h hone .closeBrace)
      · exact yields_of_eq (ending_single h hone .colon)
      · exact yields_of_eq (ending_single h hone .semicolon)
      · exact yields_of_eq (ending_single h hone .word)
      · exact yields_readOpenParen h
      · exact yields_of_eq (ending_single h hone .closeParen)
      · exact yields_of_eq (upTo_findUnescaped h hone (by decide) (by decide) (by decide) _ _)
      · exact yields_of_eq (upTo_findUnescaped h hone (by decide) (by decide) (by decide) _ _)
      · exact yields_readEscape h
      · exact yields_at h
      · exact yields_slash h
    · have hne : ∀ q ∈ marks, (b == code q) = false := by
        intro q hq
        rw [(sees_beq (toNat_lt_of_mem_marks hq)).head hb, beq_eq_false_iff_ne]
        rintro rfl
        exact hc hq
      rw [lexeme_of_notMem_marks cx r hblank hc,
        answer_of_notMem_marks s l (hspace.trans hblank) hne]
      exact yields_word h hb

/-! ## Rounds -/

theorem walk_eq (p : Position) (t : Text) : walk p t = (p.advance t.dropLast, p.advance t) := by
  have hfold : ∀ (t : Text) (q p : Position),
      t.foldl (fun places c => (places.2, places.2.next c)) (q, p) =
        (if t = [] then q else p.advance t.dropLast, p.advance t) := by
    intro t
    induction t with
    | nil => exact fun q p => rfl
    | cons c t ih =>
      intro q p
      rw [List.foldl_cons, ih, if_neg (List.cons_ne_nil c t)]
      cases t <;> rfl
  refine (hfold t p p).trans ?_
  cases t <;> rfl

/-- Behind a token with the text `t`. -/
def push (l : Scanner) (kind : Kind) (t : Text) : Scanner where
  pos := l.pos + byteLength t
  position := l.position.advance t
  openParens :=
    match kind with
    | .openParen => l.openParens + 1
    | .closeParen => l.openParens - 1
    | _ => l.openParens
  tokens := l.tokens ++ [⟨kind, t, Span.of l.position t⟩]

theorem yields_emit {t : Text} (h : At s p (t ++ r) cx l) (kind : Kind) :
    Yields s (emit s l kind (byteLength (p ++ t))) (l.push kind t) := by
  unfold emit push
  rw [h.pos, byteLength_append]
  refine (yields_slice p t r h.text).bind ?_
  rw [walk_eq]
  exact yields_pure _

theorem At.push {t : Text} (h : At s p (t ++ r) cx l) (kind : Kind) :
    At s (p ++ t) r (cx.step kind t) (l.push kind t) where
  text := by rw [List.append_assoc, h.text]
  pos := by
    rw [byteLength_append, ← h.pos]
    rfl
  openParens := by
    have hdepth := h.openParens
    cases kind <;> simp [Scanner.push, Context.step, hdepth]
  last := by
    unfold Scanner.push Context.step
    rw [lastText?, List.reverse_append, List.reverse_singleton,
      List.singleton_append, List.find?_cons, ← h.last, lastText?]
    by_cases hk : kind = .space <;> simp [hk]

/-- **The scanner answers as the lexer does**, from any place between two tokens, if it may go round
more often than there are characters left. -/
theorem yields_run {n : Nat} (h : At s p r cx l) (hn : r.length < n) :
    Yields s (run s l n) (some ((tokensFrom cx l.position r).map (l.tokens ++ ·))) := by
  induction n generalizing p r cx l with
  | zero => exact absurd hn (Nat.not_lt_zero _)
  | succ n ih =>
    have hbyte : s.utf8[l.pos]? = r.utf8.head? := by
      rw [h.pos, ← List.head?_drop, ← h.text, drop_utf8_append]
    rw [run, hbyte]
    cases r with
    | nil =>
      refine yields_of_eq ?_
      rw [tokensFrom, Except.map, List.append_nil]
    | cons c r =>
      obtain ⟨b, bs, hb, hbs⟩ := exists_utf8_cons c r
      have hanswer := yields_answer h hb
      rw [hbs, List.head?_cons, tokensFrom]
      cases hlex : lexeme cx c r with
      | error fault =>
        have hround : Yields s (round s l b) (.error ⟨fault, l.position⟩) := by
          rw [hlex] at hanswer
          exact hanswer.bind (yields_pure _)
        exact hround.bind (yields_pure _)
      | ok lex =>
        obtain ⟨kind, k⟩ := lex
        have hrest : At s p ((c :: r.take k) ++ r.drop k) cx l := by
          rwa [List.cons_append, List.take_append_drop]
        have hround : Yields s (round s l b) (.ok (l.push kind (c :: r.take k))) := by
          rw [hlex] at hanswer
          exact hanswer.bind ((yields_emit hrest kind).bind (yields_pure _))
        refine hround.bind ?_
        have hlt : (r.drop k).length < n := by
          rw [List.length_cons] at hn
          rw [List.length_drop]
          omega
        refine (ih (hrest.push kind) hlt).cast (congrArg some ?_)
        dsimp only [push]
        cases tokensFrom _ _ (r.drop k) with
        | error e => rfl
        | ok ts => rw [Except.map, Except.map, List.append_assoc, List.singleton_append]

end Scanner

/-- **Nothing is lost, and no cut can fail.** The texts of the tokens together are the source, and none
is empty. The scanner on bytes answers as `tokenize` does, also with an error, in no more rounds than
there are bytes; every offset at which it cuts is the offset of a character or the end. -/
theorem tokenize_lossless (s : Text) :
    (∀ ts, tokenize s = .ok ts → join ts = s ∧ ∀ t ∈ ts, t.text ≠ []) ∧
      ∃ cuts, (Scanner.run s .start (s.byteLength + 1)).run [] = some (some (tokenize s), cuts) ∧
        ∀ n ∈ cuts, (s.splitBytes? n).isSome = true := by
  constructor
  · intro ts hts
    have hlex := lexed_of_tokensFrom hts
    exact ⟨hlex.join_eq, hlex.text_ne_nil⟩
  · have hat : Scanner.At s [] s .start .start := ⟨rfl, rfl, rfl, rfl⟩
    obtain ⟨cuts, hcuts, hrun⟩ :=
      Scanner.yields_run hat (Nat.lt_succ_of_le (length_le_byteLength s))
    refine ⟨cuts, ?_, hcuts⟩
    rw [hrun, List.nil_append]
    change some (some ((tokenize s).map ([] ++ ·)), cuts) = _
    cases tokenize s <;> rfl

theorem tokenize_lossless_url :
    ∃ ts, tokenize "url(é) \\ü".toList = .ok ts ∧ join ts = "url(é) \\ü".toList ∧
      ∀ t ∈ ts, t.text ≠ [] := by
  have hok : (tokenize "url(é) \\ü".toList).isOk = true := by decide +kernel
  cases hts : tokenize "url(é) \\ü".toList with
  | error e =>
    rw [hts] at hok
    cases hok
  | ok ts => exact ⟨ts, rfl, (tokenize_lossless _).1 ts hts⟩

end LessStyle.Token
