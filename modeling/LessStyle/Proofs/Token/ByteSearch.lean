import LessStyle.Proofs.Token.Lexing
import LessStyle.Proofs.Token.Scanner

/-!
# Searches among bytes

Each search of the scanner on bytes ends where the search of the lexer on characters ends: the offset
it finds is the byte length of the text before. For an escaped character this takes an argument
(`findUnescaped_utf8`): the scanner counts the backslashes before a candidate, the lexer marks each
character that a backslash escapes.
-/

namespace LessStyle.Token

open Text

/-! ## Escapes -/

theorem sees_isSpaceByte : Sees isSpaceByte isBlank := by
  have h : Sees isSpaceByte [' ', '\n', '\t', '\r', '\x0c'].contains :=
    sees_isOneOf (by decide)
  have hg : [' ', '\n', '\t', '\r', '\x0c'].contains = isBlank := by
    funext c
    rw [Bool.eq_iff_iff]
    simp [isBlank, or_assoc]
  rwa [hg] at h

/-- The number of backslashes at the end of a text. -/
def trailingBackslashes (s : Text) : Nat := (s.reverse.takeWhile (· == '\\')).length

theorem trailingBackslashes_concat (s : Text) (c : Char) :
    trailingBackslashes (s ++ [c]) = if c = '\\' then trailingBackslashes s + 1 else 0 := by
  by_cases h : c = '\\' <;> simp [trailingBackslashes, h]

/-- A backslash escapes the next character unless it is escaped itself. -/
theorem odd_trailingBackslashes_concat (s : Text) (c : Char) :
    (trailingBackslashes (s ++ [c]) % 2 == 1) =
      (c == '\\' && !(trailingBackslashes s % 2 == 1)) := by
  rw [trailingBackslashes_concat]
  by_cases hc : c = '\\'
  · rcases Nat.mod_two_eq_zero_or_one (trailingBackslashes s) with h | h <;>
      simp [hc, Nat.add_mod, h]
  · simp [hc, beq_eq_false_iff_ne.2 hc]

theorem backslashesBefore_utf8 (s t : Text) :
    backslashesBefore (utf8 (s ++ t)) (byteLength s) = trailingBackslashes s := by
  rw [backslashesBefore, take_utf8_append]
  exact (sees_beq (by decide)).takeWhile_reverse_utf8 s

theorem findUnescaped_eq (bytes : List UInt8) (target : UInt8) (start : Nat) :
    findUnescaped bytes target start =
      ((bytes.drop start).findIdx? (· == target)).bind fun k =>
        if backslashesBefore bytes (start + k) % 2 = 0 then some (start + k)
        else findUnescaped bytes target (start + k + 1) := by
  rw [findUnescaped]
  split
  · next h => rw [h]; rfl
  · next k h => rw [h]; rfl

/-- Bytes other than the target can be passed over. -/
theorem findUnescaped_skip {bytes xs ys : List UInt8} {target : UInt8} {start : Nat}
    (hdrop : bytes.drop start = xs ++ ys) (hxs : ∀ b ∈ xs, (b == target) = false) :
    findUnescaped bytes target start = findUnescaped bytes target (start + xs.length) := by
  have hys : bytes.drop (start + xs.length) = ys := by
    rw [← List.drop_drop, hdrop, List.drop_left]
  have hnone : xs.findIdx? (· == target) = none := List.findIdx?_eq_none_iff.2 hxs
  rw [findUnescaped_eq, findUnescaped_eq bytes target (start + xs.length), hdrop, hys,
    List.findIdx?_append, hnone, Option.none_or]
  cases ys.findIdx? (· == target) with
  | none => rfl
  | some k =>
    rw [Option.map_some, Option.bind_some, Option.bind_some,
      show start + (k + xs.length) = start + xs.length + k by omega]

theorem closing?_cons_of_ne {q c : Char} (h : c ≠ q) (escaped : Bool) (s : Text) :
    closing? q escaped (c :: s) = (closing? q (c == '\\' && !escaped) s).map (· + 1) := by
  cases escaped with
  | true => simp [closing?]
  | false =>
    by_cases hc : c = '\\'
    · simp [closing?, hc]
    · simp [closing?, h, beq_eq_false_iff_ne.2 hc]

/-- **Counting backslashes backwards finds what marking escapes forwards finds.** The character that
`u` ends with is escaped if an odd number of backslashes stands before it. -/
theorem findUnescaped_utf8 {q : Char} (hq : q.toNat < 128) (hne : q ≠ '\\') (u v : Text) :
    (findUnescaped (utf8 (u ++ v)) (code q) (byteLength u)).map (· + 1) =
      (closing? q (trailingBackslashes u % 2 == 1) v).map fun n => byteLength (u ++ v.take n) := by
  induction v generalizing u with
  | nil =>
    rw [findUnescaped_eq, drop_utf8_append]
    rfl
  | cons c v ih =>
    have hsplit : u ++ c :: v = (u ++ [c]) ++ v := by simp
    have ih := ih (u ++ [c])
    rw [← hsplit, odd_trailingBackslashes_concat] at ih
    have hlen : byteLength (u ++ [c]) = byteLength u + c.utf8Size := by simp
    have htake : ∀ n,
        byteLength (u ++ (c :: v).take (n + 1)) = byteLength (u ++ [c] ++ v.take n) := by
      simp
    by_cases hc : c = q
    · subst hc
      have hone : c.utf8Size = 1 := (sees_beq hq).utf8Size (by simp)
      rw [beq_eq_false_iff_ne.2 hne, Bool.false_and, hlen, hone] at ih
      rw [findUnescaped_eq, drop_utf8_append, utf8_cons, encode_of_lt hq, List.singleton_append,
        List.findIdx?_cons, beq_self_eq_true, if_pos rfl, Option.bind_some, Nat.add_zero,
        backslashesBefore_utf8]
      by_cases heven : trailingBackslashes u % 2 = 0
      · simp [heven, closing?, hne, hone]
      · have hodd : trailingBackslashes u % 2 = 1 := by omega
        rw [if_neg heven, ih, hodd]
        simp [closing?, Function.comp_def]
    · have hskip : findUnescaped (utf8 (u ++ c :: v)) (code q) (byteLength u) =
          findUnescaped (utf8 (u ++ c :: v)) (code q) (byteLength (u ++ [c])) := by
        rw [hlen, ← String.length_utf8EncodeChar]
        exact findUnescaped_skip (by rw [drop_utf8_append, utf8_cons])
          fun b hb => (sees_beq hq).eq_false (by simpa using hc) hb
      rw [hskip, ih, closing?_cons_of_ne hc, Option.map_map]
      simp only [Function.comp_def, htake]

/-! ## Words -/

theorem exists_utf8_cons (c : Char) (s : Text) :
    ∃ b bs, String.utf8EncodeChar c = b :: bs ∧ utf8 (c :: s) = b :: (bs ++ utf8 s) := by
  obtain ⟨b, bs, hb⟩ := List.exists_cons_of_ne_nil (String.utf8EncodeChar_ne_nil (c := c))
  exact ⟨b, bs, hb, by rw [utf8_cons, hb, List.cons_append]⟩

theorem head?_utf8 {q : Char} (hq : q.toNat < 128) (s : Text) :
    ((utf8 s).head? == some (code q)) = (s.head? == some q) := by
  cases s with
  | nil => rfl
  | cons c s =>
    obtain ⟨b, bs, hb, hbs⟩ := exists_utf8_cons c s
    rw [hbs, List.head?_cons, List.head?_cons, Option.some_beq_some, Option.some_beq_some]
    exact (sees_beq hq).head hb

/-- A slash and a character below 128 after it are seen among the bytes. -/
theorem slash_bytes {q c : Char} (hq : q.toNat < 128) {b : UInt8} {bs : List UInt8} (s : Text)
    (hb : String.utf8EncodeChar c = b :: bs) :
    (b == code '/' && (bs ++ utf8 s).head? == some (code q)) = (c == '/' && s.head? == some q) := by
  rw [(sees_beq (d := '/') (by decide)).head hb]
  by_cases hc : c = '/'
  · have hbs : bs = [] := by
      rw [hc, encode_of_lt (by decide)] at hb
      exact (List.cons.inj hb).2.symm
    rw [hbs, List.nil_append, head?_utf8 hq]
  · simp [beq_eq_false_iff_ne.2 hc]

theorem startsComment_cons (c : Char) (s : Text) :
    startsComment (c :: s) =
      (c == '/' && s.head? == some '*' || c == '/' && s.head? == some '/') := by
  by_cases hc : c = '/'
  · cases s with
    | nil => simp [startsComment]
    | cons d s => unfold startsComment; split <;> simp_all
  · unfold startsComment
    split <;> simp_all

theorem endsWord_cons (c : Char) (s : Text) :
    endsWord (c :: s) = (isBlank c ||
      ['(', ')', '{', '}', ':', ';', '@', '!', '\'', '"', '\\', '#'].contains c ||
        c == '/' && s.head? == some '*') := by
  by_cases hslash : c = '/' ∧ s.head? = some '*'
  · obtain ⟨rfl, hs⟩ := hslash
    obtain ⟨t, rfl⟩ := List.head?_eq_some_iff.1 hs
    simp [endsWord]
  · have hfalse : (c == '/' && s.head? == some '*') = false := by
      rwa [← Bool.not_eq_true, Bool.and_eq_true, beq_iff_eq, beq_iff_eq]
    rw [hfalse, Bool.or_false]
    unfold endsWord
    split
    · next heq =>
      cases heq
      exact absurd ⟨rfl, rfl⟩ hslash
    · next heq =>
      cases heq
      rfl
    · next heq => cases heq

theorem endsWordBytes_utf8 (c : Char) (s : Text) :
    endsWordBytes (utf8 (c :: s)) = endsWord (c :: s) := by
  obtain ⟨b, bs, hb, hbs⟩ := exists_utf8_cons c s
  rw [hbs, endsWordBytes, sees_isSpaceByte.head hb, (sees_isOneOf (by decide)).head hb,
    slash_bytes (by decide) s hb, endsWord_cons]

theorem endsAtWordBytes_utf8 (c : Char) (s : Text) :
    endsAtWordBytes (utf8 (c :: s)) = endsAtWord (c :: s) := by
  obtain ⟨b, bs, hb, hbs⟩ := exists_utf8_cons c s
  rw [hbs, endsAtWordBytes, sees_isSpaceByte.head hb, (sees_isOneOf (by decide)).head hb,
    Bool.and_or_distrib_left, slash_bytes (by decide) s hb, slash_bytes (by decide) s hb,
    endsAtWord, startsComment_cons]

/-- A byte of 128 or more ends no word. -/
theorem endsWordBytes_high {b : UInt8} (bs : List UInt8) (hb : 128 ≤ b.toNat) :
    endsWordBytes (b :: bs) = false := by
  rw [endsWordBytes, sees_isSpaceByte.byte hb, (sees_isOneOf (by decide)).byte hb,
    (sees_beq (d := '/') (by decide)).byte hb]
  rfl

theorem endsAtWordBytes_high {b : UInt8} (bs : List UInt8) (hb : 128 ≤ b.toNat) :
    endsAtWordBytes (b :: bs) = false := by
  rw [endsAtWordBytes, sees_isSpaceByte.byte hb, (sees_isOneOf (by decide)).byte hb,
    (sees_beq (d := '/') (by decide)).byte hb]
  rfl

/-- No byte of 128 or more stops the count. -/
theorem bytesUntil_append {stop : List UInt8 → Bool} {xs : List UInt8} (ys : List UInt8)
    (h : ∀ b ∈ xs, ∀ bs, stop (b :: bs) = false) :
    bytesUntil stop (xs ++ ys) = xs.length + bytesUntil stop ys := by
  induction xs with
  | nil => simp
  | cons b xs ih =>
    rw [List.cons_append, bytesUntil, h b List.mem_cons_self, if_neg (by simp),
      ih fun b' hb' => h b' (List.mem_cons_of_mem b hb'), List.length_cons]
    omega

theorem bytesUntil_utf8 {stop : List UInt8 → Bool} {stops : Text → Bool}
    (hchar : ∀ c s, stop (utf8 (c :: s)) = stops (c :: s))
    (hbyte : ∀ b bs, 128 ≤ b.toNat → stop (b :: bs) = false) (s : Text) :
    bytesUntil stop (utf8 s) = byteLength (s.take (widthUntil stops s)) := by
  induction s with
  | nil => rfl
  | cons c s ih =>
    rw [widthUntil]
    cases hstop : stops (c :: s) with
    | true =>
      obtain ⟨b, bs, -, hbs⟩ := exists_utf8_cons c s
      rw [hbs, bytesUntil, ← hbs, hchar, hstop]
      rfl
    | false =>
      rw [if_neg (by simp), List.take_succ_cons, byteLength_cons, ← ih]
      by_cases hc : c.toNat < 128
      · have hs := hchar c s
        rw [utf8_cons, encode_of_lt hc, List.singleton_append, hstop] at hs
        rw [utf8_cons, encode_of_lt hc, List.singleton_append, bytesUntil, hs, if_neg (by simp),
          ← String.length_utf8EncodeChar, encode_of_lt hc, List.length_singleton, Nat.add_comm]
      · rw [utf8_cons, bytesUntil_append, String.length_utf8EncodeChar]
        intro b hb bs
        exact hbyte b bs (le_of_mem_encode (Nat.le_of_not_lt hc) hb)

/-! ## Parentheses -/

/-- A character that parentheses do not hold in one token, and that does not close them. -/
theorem isPlain_eq {c : Char} (h : (c == ')') = false) :
    isPlain c = !(['@', '\n', '\'', '"', '\\', '('].contains c) := by
  have hne : c ≠ ')' := beq_eq_false_iff_ne.1 h
  rw [Bool.eq_iff_iff]
  simp [isPlain, hne]

theorem keepsStructure_eq {inner : Text} (h : ∀ c ∈ inner, (c == ')') = false) :
    keepsStructure inner = (inner.isEmpty || inner == ['.', '.', '.'] || !inner.all isPlain) := by
  have hany : inner.utf8.any (isOneOf ['@', '\n', '\'', '"', '\\', '(']) = !inner.all isPlain := by
    rw [(sees_isOneOf (by decide)).any_utf8, List.not_all_eq_any_not]
    rw [Bool.eq_iff_iff, List.any_eq_true, List.any_eq_true]
    refine exists_congr fun c => and_congr_right fun hc => ?_
    rw [isPlain_eq (h c hc), Bool.not_not]
  rw [keepsStructure, hany]

/-- The parentheses up to the first closing one are one token unless what they hold keeps its
structure. -/
theorem parenLexeme_of_find {cx : Context} {r : Text} {k : Nat} (hurl : opensUrl cx r = false)
    (hk : r.findIdx? (· == ')') = some k) :
    parenLexeme cx r =
      if keepsStructure (r.take k) then .ok (.openParen, 0) else .ok (.brackets, k + 1) := by
  have hlen : (r.take k).length = k := by
    obtain ⟨hlt, -⟩ := List.findIdx?_eq_some_iff_getElem.1 hk
    exact List.length_take_of_le (Nat.le_of_lt hlt)
  obtain ⟨c, t, hr, hc, hinner⟩ := exists_of_findIdx? hk
  obtain rfl : c = ')' := beq_iff_eq.1 hc
  rw [parenLexeme, if_neg (by simp [hurl]), keepsStructure_eq hinner]
  dsimp only
  rw [drop_length_takeWhile]
  generalize r.take k = inner at *
  subst hr hlen
  cases hall : inner.all isPlain with
  | true =>
    have hplain := List.all_eq_true.1 hall
    rw [List.takeWhile_append_of_pos hplain, List.dropWhile_append_of_pos hplain]
    simp [isPlain]
  | false =>
    -- the run of plain characters ends before the closing parenthesis
    obtain ⟨d, u, hd⟩ : ∃ d u, inner.dropWhile isPlain = d :: u := by
      refine List.exists_cons_of_ne_nil fun hnil => ?_
      have hinner := List.takeWhile_append_dropWhile (p := isPlain) (l := inner)
      rw [hnil, List.append_nil] at hinner
      rw [← hinner, List.all_takeWhile] at hall
      cases hall
    have hne : d ≠ ')' := by
      refine beq_eq_false_iff_ne.1 (hinner d ?_)
      exact (List.dropWhile_sublist isPlain).subset (hd ▸ List.mem_cons_self)
    rw [List.dropWhile_append, hd]
    simp [hne]

theorem parenLexeme_of_find_none {cx : Context} {r : Text} (hurl : opensUrl cx r = false)
    (h : r.findIdx? (· == ')') = none) : parenLexeme cx r = .ok (.openParen, 0) := by
  rw [parenLexeme, if_neg (by simp [hurl])]
  dsimp only
  split
  · next t ht =>
    have hmem : ')' ∈ r := List.mem_of_mem_drop (ht ▸ List.mem_cons_self)
    simpa using List.findIdx?_eq_none_iff.1 h _ hmem
  · rfl
end LessStyle.Token
