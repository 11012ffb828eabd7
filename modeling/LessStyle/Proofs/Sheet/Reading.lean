import LessStyle.Sheet.Parser

/-!
# Derivations of a reading

`Draft.Step d taken rest d'` says that reading one statement of `taken ++ rest` takes the tokens
`taken` and turns the draft `d` into `d'`; there is a constructor for every kind of statement, with
all that was tested on the way to it. `Draft.Run` chains the steps of a whole reading. `Draft.read`
and `Sheet.ofTokens` succeed only along such a run (`Draft.run_of_read`, `Sheet.exists_run`), so what
one step preserves holds of every sheet.
-/

namespace LessStyle

/-! ## Where a statement stops -/

namespace Statement

/-- The stop of an extent stands after its `width` tokens. -/
def Extent.Fits (e : Extent) (ts : List Token) : Prop :=
  match e.stop with
  | .semicolon t => t.kind = .semicolon ∧ ts[e.width]? = some t
  | .openBrace => ∃ t : Token, t.kind = .openBrace ∧ ts[e.width]? = some t
  | .closeBrace => ∃ t : Token, t.kind = .closeBrace ∧ ts[e.width]? = some t
  | .inputEnd => e.width = ts.length
  | .unclosed _ => e.width = ts.length

theorem Extent.Fits.succ {e : Extent} {ts : List Token} (h : e.Fits ts) (t : Token) :
    e.succ.Fits (t :: ts) := by
  obtain ⟨width, stop, colon⟩ := e
  cases stop with
  | semicolon | openBrace | closeBrace => exact h
  | inputEnd | unclosed => exact congrArg Nat.succ h

theorem extent_fits (opened : List Token) (colon : Bool) (ts : List Token) :
    (extent opened colon ts).Fits ts := by
  fun_induction extent opened colon ts with
  | case1 colon opened paren h => rfl
  | case2 colon opened h => rfl
  | case6 colon t ts h => exact ⟨h, rfl⟩
  | case7 colon t ts h => exact ⟨t, h, rfl⟩
  | case8 colon t ts h => exact ⟨t, h, rfl⟩
  | case3 | case4 | case5 | case9 | case10 =>
    rename_i ih
    exact ih.succ _

/-- The first token of a statement holds the colon of a declaration. -/
def holdsColon (first : Token) : Bool := first.kind = .atWord && first.text.contains ':'

/-- The extent of the statement that begins with `first`. -/
def extentOf (first : Token) (ts : List Token) : Extent :=
  extent [] (holdsColon first) (first :: ts)

theorem extentOf_fits (first : Token) (ts : List Token) :
    (extentOf first ts).Fits (first :: ts) :=
  extent_fits _ _ _

end Statement

/-- Splitting off the longest end of tokens that satisfy `p` loses nothing. -/
theorem take_append_reverse_takeWhile (p : Token → Bool) (ts : List Token) :
    ts.take (ts.length - (ts.reverse.takeWhile p).reverse.length) ++
      (ts.reverse.takeWhile p).reverse = ts := by
  have h := List.reverse_suffix.2 (List.takeWhile_prefix (l := ts.reverse) p)
  rw [List.reverse_reverse] at h
  generalize (ts.reverse.takeWhile p).reverse = tail at h ⊢
  obtain ⟨us, rfl⟩ := h
  rw [List.length_append, Nat.add_sub_cancel, List.take_left]

theorem splitTrivia_append (ts : List Token) : (splitTrivia ts).1 ++ (splitTrivia ts).2 = ts :=
  take_append_reverse_takeWhile _ ts

theorem splitTrivia_isPrefix (ts : List Token) : (splitTrivia ts).1 <+: ts :=
  ⟨_, splitTrivia_append ts⟩

/-! ## Steps -/

namespace Draft

/-- The token begins a statement that is no at-rule. -/
def beginsStatement (t : Token) (ts : List Token) : Bool :=
  match t.kind with
  | .space | .semicolon | .closeBrace | .lineComment | .blockComment | .openBrace => false
  | .atWord => startsVariable t ts
  | _ => true

/-- The token begins an at-rule with a name. -/
structure BeginsAtRule (t : Token) (ts : List Token) : Prop where
  kind : t.kind = .atWord
  notVariable : startsVariable t ts = false
  named : t.text.drop 1 ≠ []

/-- One step of a reading: the tokens it takes, the tokens it leaves, and the draft after it. -/
inductive Step (d : Draft) : List Token → List Token → Draft → Prop where
  | blank {t : Token} {rest : List Token} (kind : t.kind = .space ∨ t.kind = .semicolon) :
      Step d [t] rest { d with spaces := d.spaces ++ t.text }
  | close {t : Token} {rest : List Token} {d' : Draft} (kind : t.kind = .closeBrace)
      (closes : d.close t = .ok d') : Step d [t] rest d'
  | comment {t : Token} {rest : List Token} (kind : t.kind.isComment = true) :
      Step d [t] rest (d.push (.comment (.ofToken d.spaces t)))
  | bare {t : Token} {rest : List Token} (kind : t.kind = .openBrace) :
      Step d [t] rest (d.enterBare t)
  /-- A block with a selector, up to its opening brace. -/
  | block {first brace : Token} {ts rest : List Token} {colon : Bool}
      (begins : beginsStatement first (ts ++ brace :: rest) = true)
      (extent : Statement.extentOf first (ts ++ brace :: rest) = ⟨ts.length + 1, .openBrace, colon⟩)
      (kind : brace.kind = .openBrace) :
      Step d (first :: (ts ++ [brace])) rest (d.enterBlock first ts)
  /-- A declaration or a call with its semicolon. -/
  | ended {first semicolon : Token} {ts rest : List Token} {colon : Bool} {d' : Draft}
      (begins : beginsStatement first (ts ++ semicolon :: rest) = true)
      (extent : Statement.extentOf first (ts ++ semicolon :: rest) =
        ⟨ts.length + 1, .semicolon semicolon, colon⟩)
      (kind : semicolon.kind = .semicolon)
      (simple : d.simple colon first ts (some semicolon) = .ok d') :
      Step d (first :: (ts ++ [semicolon])) rest d'
  /-- A declaration or a call that a closing brace or the end of the input ends; the blanks and
  comments before that are left. -/
  | unended {first : Token} {ts rest : List Token} {e : Statement.Extent} {d' : Draft}
      (begins : beginsStatement first (ts ++ rest) = true)
      (extent : Statement.extentOf first (ts ++ rest) = e)
      (stop : e.stop = .closeBrace ∨ e.stop = .inputEnd)
      (core : ts = (splitTrivia ((ts ++ rest).take (e.width - 1))).1)
      (simple : d.simple e.colon first ts none = .ok d') :
      Step d (first :: ts) rest d'
  | atRuleAtEnd {first : Token} {ts : List Token} (begins : BeginsAtRule first ts)
      (params : ∀ t ∈ ts, endsParams t = false) :
      Step d (first :: ts) []
        { d.push (.atRule { AtRule.ofTokens d.spaces first ts with between := [] }) with
          spaces := (AtRule.ofTokens d.spaces first ts).between }
  | atRuleEnded {first semicolon : Token} {ts rest : List Token}
      (begins : BeginsAtRule first (ts ++ semicolon :: rest))
      (params : ∀ t ∈ ts, endsParams t = false) (kind : semicolon.kind = .semicolon) :
      Step d (first :: (ts ++ [semicolon])) rest
        (d.push (.atRule { AtRule.ofTokens d.spaces first ts with
          semicolon := true, span.last := semicolon.span.first }))
  | atRuleOpened {first brace : Token} {ts rest : List Token}
      (begins : BeginsAtRule first (ts ++ brace :: rest))
      (params : ∀ t ∈ ts, endsParams t = false) (kind : brace.kind = .openBrace) :
      Step d (first :: (ts ++ [brace])) rest (d.enter (.atRule (.ofTokens d.spaces first ts)))
  /-- An at-rule that the closing brace of the block around it ends. -/
  | atRuleClosed {first brace : Token} {ts rest : List Token} {d' : Draft}
      (begins : BeginsAtRule first (ts ++ brace :: rest))
      (params : ∀ t ∈ ts, endsParams t = false) (kind : brace.kind = .closeBrace)
      (closes : (d.push (.atRule (.ofTokens d.spaces first ts))).close brace = .ok d') :
      Step d (first :: (ts ++ [brace])) rest d'

theorem map_eq_ok {α β : Type} {f : α → β} {x : Except SyntaxError α} {b : β}
    (h : x.map f = .ok b) : ∃ a, x = .ok a ∧ f a = b := by
  cases x with
  | error e => cases h
  | ok a => exact ⟨a, rfl, Except.ok.inj h⟩

theorem split_at_getElem? (ts : List Token) {w : Nat} {t : Token} (h : ts[w]? = some t) :
    ts.take (w + 1) = ts.take w ++ [t] ∧ ts.take w ++ t :: ts.drop (w + 1) = ts ∧
      (ts.take w).length = w := by
  obtain ⟨hw, ht⟩ := List.getElem?_eq_some_iff.1 h
  refine ⟨?_, ?_, List.length_take_of_le (Nat.le_of_lt hw)⟩
  · rw [List.take_add_one, h, Option.toList_some]
  · rw [← ht, ← List.drop_eq_getElem_cons hw, List.take_append_drop]

/-- A statement has at least its first token. -/
theorem exists_width {first : Token} {ts : List Token} (hb : beginsStatement first ts = true) :
    ∃ w, (Statement.extentOf first ts).width = w + 1 := by
  refine Nat.exists_eq_succ_of_ne_zero fun hw => ?_
  have hf := Statement.extentOf_fits first ts
  rw [Statement.Extent.Fits, hw] at hf
  split at hf
  · obtain ⟨hk, ht⟩ := hf
    obtain rfl := Option.some.inj ht
    simp [beginsStatement, hk] at hb
  · obtain ⟨t, hk, ht⟩ := hf
    obtain rfl := Option.some.inj ht
    simp [beginsStatement, hk] at hb
  · obtain ⟨t, hk, ht⟩ := hf
    obtain rfl := Option.some.inj ht
    simp [beginsStatement, hk] at hb
  · simp at hf
  · simp at hf

theorem step_of_statement {d d' : Draft} {first : Token} {ts : List Token} {n : Nat}
    (hb : beginsStatement first ts = true) (h : d.statement first ts = .ok (d', n)) :
    Step d (first :: ts.take n) (ts.drop n) d' := by
  obtain ⟨w, hw⟩ := exists_width hb
  have hf := Statement.extentOf_fits first ts
  generalize hx : Statement.extentOf first ts = e at hw hf
  obtain ⟨width, stop, colon⟩ := e
  dsimp only at hw
  subst hw
  have hx' : Statement.extent [] (first.kind = .atWord && first.text.contains ':') (first :: ts) =
    ⟨w + 1, stop, colon⟩ := hx
  simp only [statement, hx', Nat.add_sub_cancel] at h
  cases stop with
  | unclosed paren => cases h
  | openBrace =>
    obtain ⟨brace, hk, ht⟩ := hf
    obtain ⟨htake, hts, hlen⟩ := split_at_getElem? ts ht
    cases h
    have hext : Statement.extentOf first (ts.take w ++ brace :: ts.drop (w + 1)) =
        ⟨(ts.take w).length + 1, .openBrace, colon⟩ := by rw [hts, hlen, hx]
    rw [htake]
    exact .block (by rwa [hts]) hext hk
  | semicolon t =>
    obtain ⟨hk, ht⟩ := hf
    obtain ⟨htake, hts, hlen⟩ := split_at_getElem? ts ht
    obtain ⟨d₁, hd, heq⟩ := map_eq_ok h
    cases heq
    have hext : Statement.extentOf first (ts.take w ++ t :: ts.drop (w + 1)) =
        ⟨(ts.take w).length + 1, .semicolon t, colon⟩ := by rw [hts, hlen, hx]
    rw [htake]
    exact .ended (by rwa [hts]) hext hk hd
  | closeBrace | inputEnd =>
    -- the blanks and comments before the stop are left for the next step
    obtain ⟨d₁, hd, heq⟩ := map_eq_ok h
    cases heq
    have hcore : ts.take (splitTrivia (ts.take w)).1.length = (splitTrivia (ts.take w)).1 :=
      (List.prefix_iff_eq_take.1 ((splitTrivia_isPrefix _).trans (List.take_prefix w ts))).symm
    have hts := List.take_append_drop (splitTrivia (ts.take w)).1.length ts
    rw [hcore] at hts
    rw [hcore]
    refine .unended (by rwa [hts]) (by rw [hts, hx]) (by simp) ?_ hd
    rw [hts, Nat.add_sub_cancel]

theorem step_of_atRule {d d' : Draft} {first : Token} {ts : List Token} {n : Nat}
    (hk : first.kind = .atWord) (hv : startsVariable first ts = false)
    (h : d.atRule first ts = .ok (d', n)) : Step d (first :: ts.take n) (ts.drop n) d' := by
  unfold atRule at h
  split at h
  · cases h
  next hname =>
  have hparams : ∀ t ∈ ts.takeWhile (!endsParams ·), endsParams t = false := fun t ht => by
    simpa using List.all_eq_true.1 List.all_takeWhile t ht
  have hhead : ∀ t rest, ts.dropWhile (!endsParams ·) = t :: rest → endsParams t = true := by
    intro t rest ht
    have := List.head?_dropWhile_not (!endsParams ·) ts
    simpa [ht] using this
  have hts := List.takeWhile_append_dropWhile (p := (!endsParams ·)) (l := ts)
  generalize ts.takeWhile (!endsParams ·) = params at h hparams hts
  generalize ts.dropWhile (!endsParams ·) = rest at hhead hts
  subst hts
  dsimp only at h
  rw [List.drop_left] at h
  cases rest with
  | nil =>
    cases h
    rw [List.take_left, List.drop_left]
    rw [List.append_nil] at hv
    exact .atRuleAtEnd ⟨hk, hv, hname⟩ hparams
  | cons t rest =>
    have hstop := hhead t rest rfl
    have htake : (params ++ t :: rest).take (params.length + 1) = params ++ [t] :=
      List.take_length_add_append 1
    have hdrop : (params ++ t :: rest).drop (params.length + 1) = rest :=
      List.drop_length_add_append 1
    dsimp only at h
    split at h
    · next hkind =>
      cases h
      rw [htake, hdrop]
      exact .atRuleEnded ⟨hk, hv, hname⟩ hparams hkind
    · next hkind =>
      cases h
      rw [htake, hdrop]
      exact .atRuleOpened ⟨hk, hv, hname⟩ hparams hkind
    · next hsemi hopen =>
      obtain ⟨d₁, hd, heq⟩ := map_eq_ok h
      cases heq
      rw [htake, hdrop]
      refine .atRuleClosed ⟨hk, hv, hname⟩ hparams ?_ hd
      simp only [endsParams, Bool.or_eq_true, decide_eq_true_eq] at hstop
      exact hstop.resolve_left fun hor => hor.elim hsemi hopen

/-- **A step of the reading** is one of the steps of the relation. -/
theorem step_of_step {d d' : Draft} {t : Token} {ts : List Token} {n : Nat}
    (h : d.step t ts = .ok (d', n)) : Step d (t :: ts.take n) (ts.drop n) d' := by
  unfold step at h
  split at h
  · next hk =>
    cases h
    exact .blank (.inl hk)
  · next hk =>
    cases h
    exact .blank (.inr hk)
  · next hk =>
    obtain ⟨d₁, hd, heq⟩ := map_eq_ok h
    cases heq
    exact .close hk hd
  · next hk =>
    cases h
    exact .comment (by rw [hk]; rfl)
  · next hk =>
    cases h
    exact .comment (by rw [hk]; rfl)
  · next hk =>
    cases h
    exact .bare hk
  · next hk =>
    split at h
    · next hv => exact step_of_statement (by rw [beginsStatement, hk]; exact hv) h
    · next hv => exact step_of_atRule hk (by simpa using hv) h
  · exact step_of_statement (by unfold beginsStatement; split <;> simp_all) h

/-- A whole reading: step after step, until no token is left. -/
inductive Run : Draft → List Token → Draft → Prop where
  | nil (d : Draft) : Run d [] d
  | cons {d d₁ d₂ : Draft} {taken rest : List Token} (head : Step d taken rest d₁)
      (tail : Run d₁ rest d₂) : Run d (taken ++ rest) d₂

theorem run_of_read {d d' : Draft} {ts : List Token} (h : d.read ts = .ok d') : Run d ts d' := by
  fun_induction read d ts generalizing d' with
  | case1 d =>
    cases h
    exact .nil d
  | case2 => cases h
  | case3 d t ts d₁ n hstep ih =>
    have hrun := Run.cons (step_of_step hstep) (ih h)
    rwa [List.cons_append, List.take_append_drop] at hrun

end Draft

theorem Sheet.exists_of_isOk_parse {s : Text} (h : (Sheet.parse s).isOk = true) :
    ∃ ts sheet, Token.tokenize s = .ok ts ∧ Sheet.ofTokens ts = .ok sheet := by
  unfold parse at h
  split at h
  · cases h
  · next ts hts =>
    cases hs : ofTokens ts with
    | error e =>
      rw [hs] at h
      cases h
    | ok sheet => exact ⟨ts, sheet, hts, hs⟩

/-- The tokens and the sheet of a text, of which `f` has been computed. -/
theorem Sheet.exists_of_eval {α : Type} {s : Text} {f : List Token → Sheet → α} {a : α}
    (h : ((Token.tokenize s).toOption.bind fun ts => (ofTokens ts).toOption.map (f ts)) =
      some a) :
    ∃ ts sheet, Token.tokenize s = .ok ts ∧ ofTokens ts = .ok sheet ∧ f ts sheet = a := by
  cases hts : Token.tokenize s with
  | error e => simp [hts, Except.toOption] at h
  | ok ts =>
    cases hsheet : ofTokens ts with
    | error e => simp [hts, hsheet, Except.toOption] at h
    | ok sheet => exact ⟨ts, sheet, rfl, hsheet, by simpa [hts, hsheet, Except.toOption] using h⟩

/-- The definition of a mixin, a stray semicolon, a call, and an at-rule that a closing brace ends. -/
def Sheet.sampleSource : Text :=
  ".m(@a) \x7b c : é /* d */ \x7d\n;.e \x7b .m(1) ; @f g \x7d".toList

theorem Sheet.isOk_parse_sampleSource : (Sheet.parse sampleSource).isOk = true := by
  decide +kernel

/-- A sheet is what a run from the empty draft leaves when all blocks are closed. -/
theorem Sheet.exists_run {ts : List Token} {sheet : Sheet} (h : Sheet.ofTokens ts = .ok sheet) :
    ∃ d, Draft.Run .start ts d ∧ d.frames = [] ∧
      sheet = ⟨d.roots.reverse, d.spaces, d.mixins⟩ := by
  unfold ofTokens at h
  split at h
  · cases h
  next d hread =>
  refine ⟨d, Draft.run_of_read hread, ?_⟩
  unfold Draft.finish at h
  split at h
  · next hf =>
    cases h
    exact ⟨hf, rfl⟩
  · cases h

end LessStyle
