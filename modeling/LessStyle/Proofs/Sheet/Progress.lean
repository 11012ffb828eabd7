import LessStyle.Proofs.Sheet.Reading

/-!
# Readings in progress

`Draft.Reads d taken rest d'` says that a reading from `d` has come as far as `d'`: it took the tokens
`taken`, with the tokens `rest` still after them. The tokens that are left belong to the judgement,
because a statement ends where the next one allows it to. A reading with nothing left is a run
(`Draft.reads_nil_iff`), and whatever has been read can be cut off in front
(`Draft.Reads.read_eq`).

`Draft.Fails` lists the ways a single step can fail, each with its fault and its place. A reading that
fails comes to a draft where the next step does (`Draft.exists_fails`).
-/

namespace LessStyle

/-! ## The name that begins a statement -/

/-- What follows the words of a name does not change it. -/
theorem Mixin.leadingName_append {ts us : List Token} (h : ∀ t ∈ us.head?, t.kind ≠ .word) :
    leadingName (ts ++ us) = leadingName ts := by
  induction ts with
  | nil =>
    cases us with
    | nil => rfl
    | cons u us => simp [leadingName, h u (by simp)]
  | cons t ts ih =>
    simp only [leadingName, List.cons_append, List.takeWhile_cons] at ih ⊢
    split
    · rw [Token.join_cons, Token.join_cons, ih]
    · rfl

/-- No word stands where a statement stops. -/
theorem Statement.Extent.Fits.kind_ne_word {e : Extent} {ts : List Token} (h : e.Fits ts) :
    ∀ t ∈ (ts.drop e.width).head?, t.kind ≠ .word := by
  intro t ht
  rw [List.head?_drop, Option.mem_def] at ht
  unfold Fits at h
  split at h
  · obtain ⟨hk, hu⟩ := h
    obtain rfl := Option.some.inj (ht.symm.trans hu)
    simp [hk]
  · obtain ⟨u, hk, hu⟩ := h
    obtain rfl := Option.some.inj (ht.symm.trans hu)
    simp [hk]
  · obtain ⟨u, hk, hu⟩ := h
    obtain rfl := Option.some.inj (ht.symm.trans hu)
    simp [hk]
  · simp [h] at ht
  · simp [h] at ht

theorem isTrivia_of_mem_splitTrivia {ts : List Token} {t : Token} (h : t ∈ (splitTrivia ts).2) :
    t.kind.isTrivia = true := by
  rw [splitTrivia, List.mem_reverse] at h
  exact List.all_eq_true.1 List.all_takeWhile t h

/-- Blanks and comments at the end do not belong to the name. -/
theorem Mixin.leadingName_splitTrivia (us ts : List Token) :
    leadingName (us ++ (splitTrivia ts).1) = leadingName (us ++ ts) := by
  have htail : ∀ t ∈ (splitTrivia ts).2.head?, t.kind ≠ .word := by
    intro t ht hk
    have := isTrivia_of_mem_splitTrivia (List.mem_of_mem_head? ht)
    rw [hk] at this
    cases this
  rw [← leadingName_append htail, List.append_assoc, splitTrivia_append]

namespace Draft

/-- The words that begin a statement stand before its end. -/
theorem leadingName_extentOf {first : Token} {ts : List Token}
    (hb : beginsStatement first ts = true) :
    Mixin.leadingName (first :: ts.take ((Statement.extentOf first ts).width - 1)) =
      Mixin.leadingName (first :: ts) := by
  obtain ⟨w, hw⟩ := exists_width hb
  have hstop := (Statement.extentOf_fits first ts).kind_ne_word
  rw [hw] at hstop ⊢
  have happend : Mixin.leadingName ((first :: ts).take (w + 1) ++ (first :: ts).drop (w + 1)) =
      Mixin.leadingName ((first :: ts).take (w + 1)) := Mixin.leadingName_append hstop
  rw [List.take_append_drop] at happend
  exact happend.symm

/-! ## Steps that succeed -/

theorem step_eq_statement {t : Token} {ts : List Token} (h : beginsStatement t ts = true)
    (d : Draft) : d.step t ts = d.statement t ts := by
  unfold beginsStatement at h
  unfold step
  split at h <;> simp_all

theorem step_eq_atRule {t : Token} {ts : List Token} (hk : t.kind = .atWord)
    (hv : startsVariable t ts = false) (d : Draft) : d.step t ts = d.atRule t ts := by
  rw [step, hk]
  simp [hv]

/-- An at-rule that the end of the input ends. -/
theorem atRule_at_end {first : Token} {ts : List Token} (d : Draft)
    (hname : first.text.drop 1 ≠ []) (h : ∀ t ∈ ts, endsParams t = false) :
    d.atRule first ts =
      .ok ({ d.push (.atRule { AtRule.ofTokens d.spaces first ts with between := [] }) with
        spaces := (AtRule.ofTokens d.spaces first ts).between }, ts.length) := by
  have hparams : (ts ++ []).takeWhile (!endsParams ·) = ts ++ [] :=
    List.takeWhile_append_of_pos fun t ht => by simp [h t ht]
  rw [List.append_nil] at hparams
  rw [atRule, if_neg hname]
  simp only [hparams, List.drop_length]

/-- An at-rule that the token `t` ends. -/
theorem atRule_before {first t : Token} {ts rest : List Token} (d : Draft)
    (hname : first.text.drop 1 ≠ []) (h : ∀ t ∈ ts, endsParams t = false)
    (ht : endsParams t = true) :
    d.atRule first (ts ++ t :: rest) =
      match t.kind with
      | .semicolon =>
        .ok (d.push (.atRule { AtRule.ofTokens d.spaces first ts with
          semicolon := true, span.last := t.span.first }), ts.length + 1)
      | .openBrace => .ok (d.enter (.atRule (.ofTokens d.spaces first ts)), ts.length + 1)
      | _ => ((d.push (.atRule (.ofTokens d.spaces first ts))).close t).map (·, ts.length + 1) := by
  have hparams : (ts ++ t :: rest).takeWhile (!endsParams ·) = ts := by
    rw [List.takeWhile_append_of_pos fun u hu => by simp [h u hu]]
    simp [ht]
  rw [atRule, if_neg hname]
  cases hk : t.kind <;> simp only [hparams, List.drop_left, hk]

/-- A statement whose extent is known. -/
theorem statement_eq {first : Token} {ts : List Token} {e : Statement.Extent} (d : Draft)
    (h : Statement.extentOf first ts = e) :
    d.statement first ts =
      match e.stop with
      | .unclosed paren => .error ⟨.unclosedParen, paren.span.first⟩
      | .openBrace => .ok (d.enterBlock first (ts.take (e.width - 1)), e.width)
      | .semicolon t => (d.simple e.colon first (ts.take (e.width - 1)) (some t)).map (·, e.width)
      | .closeBrace | .inputEnd =>
        (d.simple e.colon first (splitTrivia (ts.take (e.width - 1))).1 none).map
          (·, (splitTrivia (ts.take (e.width - 1))).1.length) := by
  subst h
  rfl

/-- **A step of the relation** is what the reading does. -/
theorem Step.step_eq {d d' : Draft} {taken rest : List Token} (h : Step d taken rest d') :
    ∃ t ts, taken = t :: ts ∧ d.step t (ts ++ rest) = .ok (d', ts.length) := by
  have htake : ∀ (ts : List Token) (t : Token), (ts ++ t :: rest).take ts.length = ts :=
    fun ts t => List.take_left
  cases h with
  | @blank t _ kind =>
    refine ⟨t, [], rfl, ?_⟩
    rcases kind with kind | kind <;> simp [step, kind]
  | @close t _ _ kind closes => exact ⟨t, [], rfl, by simp [step, kind, closes, Except.map]⟩
  | @comment t _ kind =>
    refine ⟨t, [], rfl, ?_⟩
    obtain ⟨k, text, span⟩ := t
    cases k with
    | lineComment | blockComment => rfl
    | _ => cases kind
  | @bare t _ kind => exact ⟨t, [], rfl, by simp [step, kind]⟩
  | @block first brace ts _ colon begins extent kind =>
    refine ⟨first, ts ++ [brace], rfl, ?_⟩
    rw [List.append_assoc, List.singleton_append, step_eq_statement begins, statement_eq d extent]
    simp [htake]
  | @ended first semicolon ts _ colon _ begins extent kind simple =>
    refine ⟨first, ts ++ [semicolon], rfl, ?_⟩
    rw [List.append_assoc, List.singleton_append, step_eq_statement begins, statement_eq d extent]
    simp [htake, simple, Except.map]
  | @unended first ts _ e _ begins extent stop core simple =>
    refine ⟨first, ts, rfl, ?_⟩
    rw [step_eq_statement begins, statement_eq d extent]
    rcases stop with stop | stop <;> simp only [stop, ← core, simple, Except.map]
  | @atRuleAtEnd first ts begins params =>
    refine ⟨first, ts, rfl, ?_⟩
    rw [List.append_nil, step_eq_atRule begins.kind begins.notVariable,
      atRule_at_end d begins.named params]
  | @atRuleEnded first semicolon ts _ begins params kind =>
    refine ⟨first, ts ++ [semicolon], rfl, ?_⟩
    rw [List.append_assoc, List.singleton_append, step_eq_atRule begins.kind begins.notVariable,
      atRule_before d begins.named params (by simp [endsParams, kind])]
    simp [kind]
  | @atRuleOpened first brace ts _ begins params kind =>
    refine ⟨first, ts ++ [brace], rfl, ?_⟩
    rw [List.append_assoc, List.singleton_append, step_eq_atRule begins.kind begins.notVariable,
      atRule_before d begins.named params (by simp [endsParams, kind])]
    simp [kind]
  | @atRuleClosed first brace ts _ _ begins params kind closes =>
    refine ⟨first, ts ++ [brace], rfl, ?_⟩
    rw [List.append_assoc, List.singleton_append, step_eq_atRule begins.kind begins.notVariable,
      atRule_before d begins.named params (by simp [endsParams, kind])]
    simp [kind, closes, Except.map]

/-! ## Readings -/

/-- A reading as far as it has come: the tokens it took, the tokens that are left, and the draft. -/
inductive Reads : Draft → List Token → List Token → Draft → Prop where
  | nil (d : Draft) (rest : List Token) : Reads d [] rest d
  | cons {d d₁ d₂ : Draft} {taken ts rest : List Token} (head : Step d taken (ts ++ rest) d₁)
      (tail : Reads d₁ ts rest d₂) : Reads d (taken ++ ts) rest d₂

/-- A reading with nothing left is a run. -/
theorem reads_nil_iff {d d' : Draft} {ts : List Token} : Reads d ts [] d' ↔ Run d ts d' := by
  constructor
  · intro h
    generalize hrest : ([] : List Token) = rest at h
    induction h with
    | nil d => exact .nil d
    | cons head tail ih =>
      subst hrest
      rw [List.append_nil] at head
      exact .cons head (ih rfl)
  · intro h
    induction h with
    | nil d => exact .nil d []
    | @cons d d₁ d₂ taken rest head tail ih =>
      exact .cons (by rwa [List.append_nil]) ih

theorem Step.read_eq {d d' : Draft} {taken rest : List Token} (h : Step d taken rest d') :
    d.read (taken ++ rest) = d'.read rest := by
  obtain ⟨t, ts, rfl, hstep⟩ := h.step_eq
  rw [List.cons_append, read, hstep]
  simp

/-- What has been read can be cut off in front. -/
theorem Reads.read_eq {d d' : Draft} {ts rest : List Token} (h : Reads d ts rest d') :
    d.read (ts ++ rest) = d'.read rest := by
  induction h with
  | nil => rfl
  | cons head tail ih => rw [List.append_assoc, head.read_eq, ih]

theorem Reads.read_eq_ok {d d' : Draft} {ts : List Token} (h : Reads d ts [] d') :
    d.read ts = .ok d' := by
  have hread := h.read_eq
  rwa [List.append_nil, read] at hread

/-! ## Steps that fail -/

/-- The step at the token `t`, with `ts` after it, fails with an error. -/
inductive Fails (d : Draft) : Token → List Token → SyntaxError → Prop where
  | close {t : Token} {ts : List Token} (kind : t.kind = .closeBrace) (closed : d.frames = []) :
      Fails d t ts ⟨.unexpectedClose, t.span.first⟩
  /-- The closing brace that ends an at-rule closes no block. -/
  | atRuleClosed {first brace : Token} {ts rest : List Token}
      (begins : BeginsAtRule first (ts ++ brace :: rest))
      (params : ∀ t ∈ ts, endsParams t = false) (kind : brace.kind = .closeBrace)
      (closed : d.frames = []) :
      Fails d first (ts ++ brace :: rest) ⟨.unexpectedClose, brace.span.first⟩
  | unnamed {t : Token} {ts : List Token} (kind : t.kind = .atWord)
      (notVariable : startsVariable t ts = false) (name : t.text.drop 1 = []) :
      Fails d t ts ⟨.unnamedAtRule, t.span.first⟩
  | unclosed {first paren : Token} {ts : List Token} (begins : beginsStatement first ts = true)
      (stop : (Statement.extentOf first ts).stop = .unclosed paren) :
      Fails d first ts ⟨.unclosedParen, paren.span.first⟩
  /-- A statement without a colon and without a block that begins with no known name. -/
  | unknown {first : Token} {ts : List Token} (begins : beginsStatement first ts = true)
      (colon : (Statement.extentOf first ts).colon = false)
      (name : d.mixins.contains (Mixin.leadingName (first :: ts)) = false) :
      Fails d first ts ⟨.unknownWord first.text, first.span.first⟩

theorem map_eq_error {α β : Type} {f : α → β} {x : Except SyntaxError α} {e : SyntaxError}
    (h : x.map f = .error e) : x = .error e := by
  cases x with
  | error e' => exact congrArg _ (Except.error.inj h)
  | ok a => cases h

theorem close_eq_error {d : Draft} {t : Token} {e : SyntaxError} (h : d.close t = .error e) :
    d.frames = [] ∧ e = ⟨.unexpectedClose, t.span.first⟩ := by
  unfold close at h
  split at h
  · next hf => exact ⟨hf, (Except.error.inj h).symm⟩
  · cases h

theorem simple_eq_error {d : Draft} {colon : Bool} {first : Token} {ts : List Token}
    {semicolon : Option Token} {e : SyntaxError}
    (h : d.simple colon first ts semicolon = .error e) :
    colon = false ∧ d.mixins.contains (Mixin.leadingName (first :: ts)) = false ∧
      e = ⟨.unknownWord first.text, first.span.first⟩ := by
  unfold simple at h
  split at h
  · cases h
  next hcolon =>
  split at h
  · cases h
  · next hname => exact ⟨by simpa using hcolon, by simpa using hname, (Except.error.inj h).symm⟩

theorem fails_of_statement {d : Draft} {first : Token} {ts : List Token} {e : SyntaxError}
    (hb : beginsStatement first ts = true) (h : d.statement first ts = .error e) :
    Fails d first ts e := by
  have hname := leadingName_extentOf hb
  -- without the blanks and comments that are left to the next step
  have hcore := (Mixin.leadingName_splitTrivia [first]
    (ts.take ((Statement.extentOf first ts).width - 1))).trans hname
  rw [statement_eq d rfl] at h
  split at h
  · next paren hstop =>
    obtain rfl := Except.error.inj h
    exact .unclosed hb hstop
  · cases h
  · obtain ⟨hcolon, hcontains, rfl⟩ := simple_eq_error (map_eq_error h)
    exact .unknown hb hcolon (hname ▸ hcontains)
  · obtain ⟨hcolon, hcontains, rfl⟩ := simple_eq_error (map_eq_error h)
    exact .unknown hb hcolon (hcore ▸ hcontains)
  · obtain ⟨hcolon, hcontains, rfl⟩ := simple_eq_error (map_eq_error h)
    exact .unknown hb hcolon (hcore ▸ hcontains)

theorem frames_push_eq_nil_iff {d : Draft} {n : Node} :
    (d.push n).frames = [] ↔ d.frames = [] := by
  unfold push
  split <;> simp [*]

theorem fails_of_atRule {d : Draft} {first : Token} {ts : List Token} {e : SyntaxError}
    (hk : first.kind = .atWord) (hv : startsVariable first ts = false)
    (h : d.atRule first ts = .error e) : Fails d first ts e := by
  by_cases hname : first.text.drop 1 = []
  · rw [atRule, if_pos hname] at h
    obtain rfl := Except.error.inj h
    exact .unnamed hk hv hname
  have hparams : ∀ t ∈ ts.takeWhile (!endsParams ·), endsParams t = false := fun t ht => by
    simpa using List.all_eq_true.1 List.all_takeWhile t ht
  have hhead := List.head?_dropWhile_not (!endsParams ·) ts
  have hts := List.takeWhile_append_dropWhile (p := (!endsParams ·)) (l := ts)
  generalize ts.takeWhile (!endsParams ·) = params at hparams hts
  generalize ts.dropWhile (!endsParams ·) = rest at hhead hts
  subst hts
  cases rest with
  | nil =>
    rw [List.append_nil, atRule_at_end d hname hparams] at h
    cases h
  | cons t rest =>
    have hstop : endsParams t = true := by simpa using hhead
    rw [atRule_before d hname hparams hstop] at h
    split at h
    · cases h
    · cases h
    · next hsemi hopen =>
      obtain ⟨hframes, rfl⟩ := close_eq_error (map_eq_error h)
      refine .atRuleClosed ⟨hk, hv, hname⟩ hparams ?_ (frames_push_eq_nil_iff.1 hframes)
      simp only [endsParams, Bool.or_eq_true, decide_eq_true_eq] at hstop
      exact hstop.resolve_left fun hor => hor.elim hsemi hopen

/-- **A step that fails** does so in one of these ways. -/
theorem fails_of_step {d : Draft} {t : Token} {ts : List Token} {e : SyntaxError}
    (h : d.step t ts = .error e) : Fails d t ts e := by
  by_cases hb : beginsStatement t ts = true
  · rw [step_eq_statement hb] at h
    exact fails_of_statement hb h
  unfold step at h
  split at h
  · cases h
  · cases h
  · next hk =>
    obtain ⟨hframes, rfl⟩ := close_eq_error (map_eq_error h)
    exact .close hk hframes
  · cases h
  · cases h
  · cases h
  · next hk =>
    have hv : startsVariable t ts = false := by simpa [beginsStatement, hk] using hb
    rw [hv] at h
    exact fails_of_atRule hk hv h
  · exact absurd (by unfold beginsStatement; split <;> simp_all) hb

/-- A reading that fails comes to a step that fails. -/
theorem exists_fails {d : Draft} {ts : List Token} {e : SyntaxError} (h : d.read ts = .error e) :
    ∃ taken t rest d', ts = taken ++ t :: rest ∧ Reads d taken (t :: rest) d' ∧
      Fails d' t rest e := by
  fun_induction read d ts with
  | case1 => cases h
  | case2 d t ts e' hstep =>
    obtain rfl := Except.error.inj h
    exact ⟨[], t, ts, d, rfl, .nil d _, fails_of_step hstep⟩
  | case3 d t ts d₁ n hstep ih =>
    obtain ⟨taken, u, rest, d', hts, hreads, hfails⟩ := ih h
    have hhead := step_of_step hstep
    rw [hts] at hhead
    refine ⟨t :: ts.take n ++ taken, u, rest, d', ?_, .cons hhead hreads, hfails⟩
    rw [List.cons_append, List.cons_append, List.append_assoc, ← hts, List.take_append_drop]

end Draft

theorem Sheet.exists_of_parse_eq_error {s : Text} {e : SyntaxError}
    (hok : (Token.tokenize s).isOk = true)
    (h : (match Sheet.parse s with
      | .error e => some e
      | .ok _ => none) = some e) :
    ∃ ts, Token.tokenize s = .ok ts ∧ Sheet.ofTokens ts = .error e := by
  cases hts : Token.tokenize s with
  | error e' =>
    rw [hts] at hok
    cases hok
  | ok ts =>
    have hparse : Sheet.parse s = Sheet.ofTokens ts := by rw [parse, hts]
    rw [hparse] at h
    split at h
    · next heq => exact ⟨ts, rfl, Option.some.inj h ▸ heq⟩
    · cases h

end LessStyle
