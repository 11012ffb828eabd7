import LessStyle.Proofs.Token.Lexeme

/-!
# The shapes of tokens

What the text of a token looks like follows from its kind, and for parentheses also from the tokens
before it (`Kind.Shape`). What an `@` begins depends on how many parentheses are open there
(`openParens`). The lexer keeps both facts about the tokens before in its context; here they are read
off the tokens themselves (`Context.through_start`), and every token of a text has the shape of its
kind (`tokenize_shaped`).
-/

namespace LessStyle.Token

open Text

/-! ## Tokens before a token -/

/-- The text of the last token that is not blank. -/
def lastText? (ts : List Token) : Option Text :=
  (ts.reverse.find? (·.kind ≠ .space)).map Token.text

/-- The number of parentheses that are open after tokens. A closing one too many does not count. -/
def openParens (ts : List Token) : Nat :=
  ts.foldl (fun n t => match t.kind with
    | .openParen => n + 1
    | .closeParen => n - 1
    | _ => n) 0

theorem lastText?_concat (ts : List Token) (t : Token) :
    lastText? (ts ++ [t]) = if t.kind = .space then lastText? ts else some t.text := by
  rw [lastText?, List.reverse_append, List.reverse_singleton, List.singleton_append,
    List.find?_cons]
  by_cases h : t.kind = .space
  · simp [h, lastText?]
  · simp [h]

theorem openParens_concat (ts : List Token) (t : Token) :
    openParens (ts ++ [t]) =
      match t.kind with
      | .openParen => openParens ts + 1
      | .closeParen => openParens ts - 1
      | _ => openParens ts := by
  rw [openParens, List.foldl_append]
  rfl

/-- What the lexer knows of the tokens before is what they say. -/
theorem Context.through_start (ts : List Token) :
    Context.start.through ts = ⟨openParens ts, (lastText? ts).getD []⟩ := by
  induction ts using List.reverseRecOn with
  | nil => rfl
  | append_singleton ts t ih =>
    have hstep : Context.start.through (ts ++ [t]) =
        (Context.start.through ts).step t.kind t.text := by
      rw [through, List.foldl_append]
      rfl
    rw [hstep, ih, openParens_concat, lastText?_concat]
    obtain ⟨kind, text, span⟩ := t
    cases kind <;> rfl

/-! ## Shapes -/

/-- An `@` and a name without blanks, brackets, quotes, backslashes and semicolons. -/
def IsAtName (s : Text) : Prop :=
  ∃ name, s = '@' :: name ∧
    ∀ c ∈ name, isBlank c = false ∧ c ∉ ['{', '}', '(', ')', '\'', '"', '\\', ';']

/-- The text between two marks has no closing mark that counts, and does not escape the one after
it. -/
def IsBody (q : Char) (body : Text) : Prop := ¬ HasUnescaped q body ∧ escapes body = false

/-- A parenthesis before the text `s` begins an address: it follows `url`, and neither a quote nor a
blank comes next. -/
def BeginsAddress (before : List Token) (s : Text) : Prop :=
  lastText? before = some ['u', 'r', 'l'] ∧
    ∀ c ∈ s.head?, c ≠ '\'' ∧ c ≠ '"' ∧ isBlank c = false

/-- What the text of a token looks like, by its kind and the tokens before it. -/
def Kind.Shape (before : List Token) : Kind → Text → Prop
  | .space, s => s ≠ [] ∧ ∀ c ∈ s, isBlank c = true
  | .word, s => s ≠ []
  | .atWord, s => IsAtName s
  | .param _, s => IsAtName s
  | .string, s => ∃ q body, (q = '\'' ∨ q = '"') ∧ s = q :: (body ++ [q]) ∧ IsBody q body
  | .brackets, s => ∃ inner, s = '(' :: (inner ++ [')']) ∧
      (BeginsAddress before (inner ++ [')']) ∧ IsBody ')' inner ∨
        ¬ BeginsAddress before (inner ++ [')']) ∧ inner ≠ [] ∧ inner ≠ ['.', '.', '.'] ∧
          ∀ c ∈ inner, c ∉ [')', '@', '\n', '\'', '"', '\\', '('])
  | .openParen, s => s = ['(']
  | .closeParen, s => s = [')']
  | .openBrace, s => s = ['{']
  | .closeBrace, s => s = ['}']
  | .colon, s => s = [':']
  | .semicolon, s => s = [';']
  | .lineComment, s => ∃ body, s = '/' :: '/' :: body ∧ '\n' ∉ body
  | .blockComment, s => ∃ body, s = '/' :: '*' :: (body ++ ['*', '/']) ∧
      ¬ ['*', '/'] <:+: body ++ ['*']

/-- What an `@` begins, if it begins no interpolation. -/
def Kind.isAtWord : Kind → Bool
  | .atWord | .param _ => true
  | _ => false

/-- A token among its neighbours. -/
structure Shaped (before : List Token) (t : Token) (after : List Token) : Prop where
  shape : t.kind.Shape before t.text
  /-- A run of blanks is one token. -/
  blank : t.kind = .space → ∀ u ∈ after.head?, u.kind ≠ .space
  /-- An at-word begins no interpolation. -/
  brace : t.kind.isAtWord = true → ¬ ['@', '{'] <+: t.text ++ join after
  /-- An at-word is a parameter if a parenthesis is open. -/
  param : t.kind.isAtWord = true → ((∃ rest, t.kind = .param rest) ↔ 0 < openParens before)
  /-- A rest parameter ends in three dots. -/
  rest : ∀ rest, t.kind = .param rest → rest = endsWith t.text ['.', '.', '.']

/-! ## Pieces have shapes -/

/-- What a width covers does not stop it. -/
theorem exists_of_mem_take_widthUntil {stop : Text → Bool} {s : Text} {c : Char}
    (h : c ∈ s.take (widthUntil stop s)) : ∃ t, stop (c :: t) = false := by
  induction s with
  | nil => simp at h
  | cons d s ih =>
    rw [widthUntil] at h
    split at h
    · simp at h
    · next hstop =>
      rw [List.take_succ_cons, List.mem_cons] at h
      rcases h with rfl | h
      · exact ⟨s, by simpa using hstop⟩
      · exact ih h

theorem isAtName_take (s : Text) : IsAtName ('@' :: s.take (widthUntil endsAtWord s)) := by
  refine ⟨_, rfl, fun c hc => ?_⟩
  obtain ⟨t, ht⟩ := exists_of_mem_take_widthUntil hc
  rw [endsAtWord, Bool.or_eq_false_iff, Bool.or_eq_false_iff] at ht
  refine ⟨ht.1.1, fun hmem => ?_⟩
  rw [List.contains_iff_mem.2 hmem] at ht
  cases ht.1.2

/-- No part of the text up to the last character but one of what is found is the same. -/
theorem not_infix_take_of_find? {needle s : Text} {n k : Nat} (h : find? needle s = some n)
    (hk : k < needle.length) : ¬ needle <:+: s.take (n + k) := by
  induction s generalizing n with
  | nil =>
    rw [List.take_nil, List.infix_nil]
    rintro rfl
    simp at hk
  | cons c s ih =>
    rw [find?] at h
    split at h
    · obtain rfl := Option.some.inj h
      intro hinfix
      have hle := hinfix.length_le
      rw [List.length_take] at hle
      omega
    · next hp =>
      obtain ⟨m, hm, rfl⟩ := Option.map_eq_some_iff.1 h
      rw [show m + 1 + k = m + k + 1 by omega, List.take_succ_cons, List.infix_cons_iff, not_or]
      refine ⟨fun hfront => hp ?_, ih hm⟩
      refine List.isPrefixOf_iff_prefix.2 (hfront.trans ?_)
      exact List.prefix_cons_inj c |>.2 (List.take_prefix _ s)

theorem opensUrl_iff (before : List Token) {s : Text} (hs : s ≠ []) :
    opensUrl (Context.start.through before) s = true ↔ BeginsAddress before s := by
  obtain ⟨c, s, rfl⟩ := List.exists_cons_of_ne_nil hs
  rw [Context.through_start, opensUrl, BeginsAddress]
  have hlast : (lastText? before).getD [] = ['u', 'r', 'l'] ↔
      lastText? before = some ['u', 'r', 'l'] := by
    cases lastText? before <;> simp
  simp [hlast, and_assoc]

/-- **A piece has the shape of its kind.** -/
theorem Piece.shape {before : List Token} {c : Char} {r : Text} {kind : Kind} {n : Nat}
    (h : Piece (Context.start.through before) c r kind n) :
    kind.Shape before (c :: r.take n) := by
  cases h with
  | space blank =>
    refine ⟨List.cons_ne_nil _ _, List.forall_mem_cons.2 ⟨blank, ?_⟩⟩
    rw [take_length_takeWhile]
    exact List.all_eq_true.1 List.all_takeWhile
  | single mem =>
    simp only [singles, List.mem_cons, Prod.mk.injEq, List.not_mem_nil, or_false] at mem
    rcases mem with ⟨rfl, rfl⟩ | ⟨rfl, rfl⟩ | ⟨rfl, rfl⟩ | ⟨rfl, rfl⟩ | ⟨rfl, rfl⟩ | ⟨rfl, rfl⟩
    · rfl
    · rfl
    · rfl
    · rfl
    · exact List.cons_ne_nil _ _
    · rfl
  | url opens close =>
    obtain ⟨a, b, rfl, rfl, heven, hnone⟩ := (closing?_eq_some_iff (by decide) r n).1 close
    rw [opensUrl_iff before (by simp)] at opens
    refine ⟨a, congrArg _ (List.take_length_add_append 1), .inl ⟨?_, hnone, heven⟩⟩
    refine ⟨opens.1, fun d hd => opens.2 d ?_⟩
    cases a <;> exact hd
  | @brackets inner r opens plain nonempty dots =>
    refine ⟨inner, congrArg _ (List.take_length_add_append 1),
      .inr ⟨fun hbegins => ?_, nonempty, dots, ?_⟩⟩
    · rw [← Bool.not_eq_true, opensUrl_iff before (by simp)] at opens
      refine opens ⟨hbegins.1, fun d hd => hbegins.2 d ?_⟩
      cases inner <;> exact hd
    · intro d hd hmem
      have := plain d hd
      simp [isPlain] at this
      simp [this] at hmem
  | openParen opens structured => rfl
  | string quote close =>
    have hq : c ≠ '\\' := by rcases quote with rfl | rfl <;> decide
    obtain ⟨a, b, rfl, rfl, heven, hnone⟩ := (closing?_eq_some_iff hq r n).1 close
    exact ⟨c, a, quote, congrArg _ (List.take_length_add_append 1), hnone, heven⟩
  | escape => exact List.cons_ne_nil _ _
  | interpolation close => exact List.cons_ne_nil _ _
  | param brace depth => exact isAtName_take r
  | atWord brace depth => exact isAtName_take r
  | @blockComment r n close =>
    have htake : r.take (n + 2) = r.take n ++ ['*', '/'] := take_find?_add close
    have hone : r.take (n + 1) = r.take n ++ ['*'] := by
      have := congrArg (List.take (n + 1)) htake
      have hlen : (r.take n).length = n := by
        have := add_length_le_of_find? close
        rw [List.length_take]
        simp at this
        omega
      rw [List.take_take, List.take_append, hlen] at this
      simpa [List.take_take] using this
    refine ⟨r.take n, by rw [List.take_succ_cons, htake], ?_⟩
    rw [← hone]
    exact not_infix_take_of_find? close (by decide)
  | @lineComment r =>
    refine ⟨r.takeWhile (· != '\n'), ?_, fun hmem => ?_⟩
    · rw [Nat.add_comm, List.take_succ_cons, take_length_takeWhile]
    · simpa using List.all_eq_true.1 List.all_takeWhile _ hmem
  | slash star second => exact List.cons_ne_nil _ _
  | word blank mark => exact List.cons_ne_nil _ _

/-- A run of blanks is taken whole. -/
theorem Piece.isBlank_of_mem_head?_drop {cx : Context} {c d : Char} {r : Text} {n : Nat}
    (h : Piece cx c r .space n) (hd : d ∈ (r.drop n).head?) : isBlank d = false := by
  cases h with
  | space blank =>
    rw [drop_length_takeWhile] at hd
    have hnot := List.head?_dropWhile_not isBlank r
    rw [Option.mem_def.1 hd] at hnot
    exact hnot
  | single mem => simp [singles] at mem

/-- An `@` that begins no interpolation is a parameter or an at-word, by the parentheses before it. -/
theorem Piece.atWord_cases {cx : Context} {c : Char} {r : Text} {kind : Kind} {n : Nat}
    (h : Piece cx c r kind n) (hat : kind.isAtWord = true) :
    r.head? ≠ some '{' ∧
      (0 < cx.depth ∧ kind = .param (endsWith (c :: r.take n) ['.', '.', '.']) ∨
        cx.depth = 0 ∧ kind = .atWord) := by
  cases h with
  | param brace depth => exact ⟨brace, .inl ⟨depth, rfl⟩⟩
  | atWord brace depth => exact ⟨brace, .inr ⟨depth, rfl⟩⟩
  | single mem =>
    simp only [singles, List.mem_cons, Prod.mk.injEq, List.not_mem_nil, or_false] at mem
    rcases mem with ⟨-, rfl⟩ | ⟨-, rfl⟩ | ⟨-, rfl⟩ | ⟨-, rfl⟩ | ⟨-, rfl⟩ | ⟨-, rfl⟩ <;> cases hat
  | _ => cases hat

/-! ## Tokens have shapes -/

/-- Each token is a piece of the text, in the context that the tokens before it left. -/
theorem Lexed.exists_piece {cx : Context} {p : Position} {s : Text} {before after : List Token}
    {t : Token} (h : Lexed cx p s (before ++ t :: after)) :
    ∃ c r n, Piece (cx.through before) c r t.kind n ∧ t.text = c :: r.take n ∧
      r.drop n = join after := by
  generalize hts : before ++ t :: after = ts at h
  induction h generalizing before with
  | nil => simp at hts
  | @cons cx p c s kind n ts head tail ih =>
    cases before with
    | nil =>
      obtain ⟨rfl, rfl⟩ := List.cons.inj hts
      exact ⟨c, s, n, piece_of_lexeme head, rfl, tail.join_eq.symm⟩
    | cons u before =>
      obtain ⟨rfl, htail⟩ := List.cons.inj hts
      exact ih htail

/-- No two runs of blanks stand side by side. -/
theorem Lexed.next_not_space {p : Position} {s : Text} {before after : List Token} {t u : Token}
    (h : Lexed .start p s (before ++ t :: u :: after)) (ht : t.kind = .space) :
    u.kind ≠ .space := by
  intro hu
  obtain ⟨c, r, n, hpiece, -, hrest⟩ := h.exists_piece
  rw [List.append_cons] at h
  obtain ⟨d, r', n', hnext, htext, -⟩ := h.exists_piece
  rw [hu] at hnext
  rw [ht] at hpiece
  have hblank : isBlank d = true := (List.forall_mem_cons.1 hnext.shape.2).1
  have hnot : isBlank d = false := by
    refine hpiece.isBlank_of_mem_head?_drop ?_
    rw [hrest, join_cons, htext]
    exact Option.mem_some_self d
  rw [hblank] at hnot
  cases hnot

/-- **Every token has the shape of its kind**, and stands among its neighbours as its kind demands. -/
theorem tokenize_shaped {s : Text} {ts before after : List Token} {t : Token}
    (h : tokenize s = .ok ts) (hts : ts = before ++ t :: after) : Shaped before t after := by
  subst hts
  have hlex := lexed_of_tokensFrom h
  obtain ⟨c, r, n, hpiece, htext, hrest⟩ := hlex.exists_piece
  have hall : t.text ++ join after = c :: r := by
    rw [htext, ← hrest, List.cons_append, List.take_append_drop]
  refine ⟨htext ▸ hpiece.shape, fun hkind u hu => ?_, fun hat => ?_, fun hat => ?_,
    fun rest hkind => ?_⟩
  · obtain ⟨after, rfl⟩ := List.head?_eq_some_iff.1 hu
    exact hlex.next_not_space hkind
  · rw [hall]
    rintro ⟨r', hr⟩
    obtain ⟨-, rfl⟩ := List.cons.inj hr
    exact (hpiece.atWord_cases hat).1 rfl
  · rw [Context.through_start] at hpiece
    obtain ⟨-, ⟨hdepth, hkind⟩ | ⟨hdepth, hkind⟩⟩ := hpiece.atWord_cases hat
    · exact ⟨fun _ => hdepth, fun _ => ⟨_, hkind⟩⟩
    · rw [hkind]
      exact ⟨fun ⟨_, hne⟩ => (nomatch hne), fun hpos => absurd hdepth (Nat.ne_of_gt hpos)⟩
  · obtain ⟨-, ⟨-, hparam⟩ | ⟨-, hword⟩⟩ := hpiece.atWord_cases (by rw [hkind]; rfl)
    · rw [hkind, ← htext] at hparam
      exact Kind.param.inj hparam
    · rw [hkind] at hword
      cases hword

/-- An address with an escaped parenthesis, and blanks between it and `url`. -/
def spacedAddress : List Token :=
  [⟨.word, ['u', 'r', 'l'], ⟨⟨1, 1⟩, ⟨1, 3⟩⟩⟩, ⟨.space, [' ', '\t'], ⟨⟨1, 4⟩, ⟨1, 5⟩⟩⟩,
    ⟨.brackets, ['(', 'a', '\\', ')', ')'], ⟨⟨1, 6⟩, ⟨1, 10⟩⟩⟩]

theorem tokenize_shaped_address :
    tokenize ['u', 'r', 'l', ' ', '\t', '(', 'a', '\\', ')', ')'] = .ok spacedAddress ∧
      spacedAddress = spacedAddress.take 2 ++
        ⟨.brackets, ['(', 'a', '\\', ')', ')'], ⟨⟨1, 6⟩, ⟨1, 10⟩⟩⟩ :: [] ∧
      Shaped (spacedAddress.take 2)
        ⟨.brackets, ['(', 'a', '\\', ')', ')'], ⟨⟨1, 6⟩, ⟨1, 10⟩⟩⟩ [] := by
  have h : tokenize ['u', 'r', 'l', ' ', '\t', '(', 'a', '\\', ')', ')'] = .ok spacedAddress := by
    decide +kernel
  exact ⟨h, rfl, tokenize_shaped h rfl⟩

end LessStyle.Token
