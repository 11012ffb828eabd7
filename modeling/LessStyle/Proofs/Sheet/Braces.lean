import LessStyle.Proofs.Sheet.Contents

/-!
# Braces that do not match

To a reading, a closing brace and the end of the input are almost the same: both end a statement, and
the lookahead of an at-word sees no colon in either. So what was read before a closing brace can be
read without it (`Draft.Reads.cut`), and what was read up to the end of the input can be read with a
closing brace there (`Draft.Reads.exists_close`). The one difference is an at-rule at the end of the
input: it leaves the blanks after it to the sheet, while a closing brace takes them and closes the
block around the at-rule in the same step.

This makes the two faults about braces exact. An unexpected brace stands after tokens that can be read
by themselves. Tokens with open blocks can be read with as many closing braces after them as blocks are
open, and the fault names the start of the innermost of these.
-/

namespace LessStyle

/-! ## Lookahead -/

namespace Statement

theorem Extent.Fits.width_le {e : Extent} {ts : List Token} (h : e.Fits ts) :
    e.width ≤ ts.length := by
  unfold Fits at h
  split at h
  · exact Nat.le_of_lt (List.getElem?_eq_some_iff.1 h.2).1
  · exact Nat.le_of_lt (List.getElem?_eq_some_iff.1 h.choose_spec.2).1
  · exact Nat.le_of_lt (List.getElem?_eq_some_iff.1 h.choose_spec.2).1
  · exact h.le
  · exact h.le

/-- The extent with a closing brace in place of the end of the input. -/
def Extent.atBrace (e : Extent) : Extent :=
  { e with stop := if e.stop = .inputEnd then .closeBrace else e.stop }

/-- How the extent `e` of a statement in `n` tokens compares with its extent `e'` if a closing brace
follows them: the brace ends the statement as the end of the input does, unless it stands in
parentheses. -/
def Extent.BeforeBrace (e : Extent) (n : Nat) (e' : Extent) : Prop :=
  (∀ paren, e.stop ≠ .unclosed paren) ∧ e' = e.atBrace ∨
    (∃ paren, e.stop = .unclosed paren) ∧ n < e'.width

theorem Extent.BeforeBrace.succ {e e' : Extent} {n : Nat} (h : e.BeforeBrace n e') :
    e.succ.BeforeBrace (n + 1) e'.succ := by
  rcases h with ⟨hopen, rfl⟩ | ⟨hopen, h⟩
  · exact .inl ⟨hopen, rfl⟩
  · exact .inr ⟨hopen, Nat.succ_lt_succ h⟩

theorem Extent.BeforeBrace.eq_of_width_le {e e' : Extent} {n : Nat} (h : e.BeforeBrace n e')
    (hw : e'.width ≤ n) : e' = e.atBrace :=
  (h.resolve_right fun hr => absurd hr.2 (Nat.not_lt.2 hw)).2

theorem Extent.BeforeBrace.eq_of_stop {e e' : Extent} {n : Nat} (h : e.BeforeBrace n e')
    (hs : ∀ paren, e.stop ≠ .unclosed paren) : e' = e.atBrace :=
  (h.resolve_right fun hr => hr.1.elim hs).2

/-- Where no closing brace ends the statement, nothing is exchanged. -/
theorem Extent.eq_of_atBrace {e e' : Extent} (h : e' = e.atBrace) (hs : e'.stop ≠ .closeBrace) :
    e = e' := by
  subst h
  unfold atBrace at hs ⊢
  split at hs
  · exact absurd rfl hs
  · next hstop => rw [if_neg hstop]

theorem Extent.stop_atBrace (e : Extent) :
    (e.atBrace.stop = .closeBrace ∨ e.atBrace.stop = .inputEnd) ↔
      (e.stop = .closeBrace ∨ e.stop = .inputEnd) := by
  unfold atBrace
  split <;> simp [*]

theorem extent_beforeBrace {brace : Token} (hk : brace.kind = .closeBrace) (more : List Token)
    (opened : List Token) (colon : Bool) (ts : List Token) :
    (extent opened colon ts).BeforeBrace ts.length
      (extent opened colon (ts ++ brace :: more)) := by
  fun_induction extent opened colon ts with
  | case1 opened colon paren h =>
    cases opened with
    | nil => cases h
    | cons p opened => exact .inr ⟨⟨paren, rfl⟩, by simp [extent, hk, Extent.succ]⟩
  | case2 opened colon h =>
    obtain rfl : opened = [] := by simpa using h
    exact .inl ⟨by simp, by simp [extent, hk, Extent.atBrace]⟩
  | case6 colon t ts h | case7 colon t ts h | case8 colon t ts h =>
    exact .inl ⟨by simp, by simp [extent, h, Extent.atBrace]⟩
  | case3 | case4 | case5 | case9 | case10 =>
    rename_i ih
    simpa [extent, *] using ih.succ

theorem extentOf_beforeBrace {brace : Token} (hk : brace.kind = .closeBrace) (first : Token)
    (ts more : List Token) :
    (extentOf first ts).BeforeBrace (ts.length + 1) (extentOf first (ts ++ brace :: more)) :=
  extent_beforeBrace hk more [] _ (first :: ts)

end Statement

namespace Draft

section Brace

variable {brace : Token} (hk : brace.kind = .closeBrace) (more : List Token)
include hk

theorem startsVariable_brace (first : Token) (ts : List Token) :
    startsVariable first (ts ++ brace :: more) = startsVariable first ts := by
  have hhead : ((ts ++ brace :: more).dropWhile (·.kind = .space)).head? =
      ((ts.dropWhile (·.kind = .space)).head?).or (some brace) := by
    rw [List.dropWhile_append]
    split
    · next h => simp [List.isEmpty_iff.1 h, hk]
    · next h =>
      cases hd : ts.dropWhile (·.kind = .space) with
      | nil => simp [hd] at h
      | cons t us => simp
  have hdef : ∀ us : List Token, startsVariable first us = (first.text.contains ':' ||
      (us.dropWhile (·.kind = .space)).head?.any (·.kind = .colon)) := by
    intro us
    unfold startsVariable
    split <;> simp [*]
  rw [hdef, hdef, hhead]
  cases (ts.dropWhile (·.kind = .space)).head? <;> simp [hk]

theorem beginsStatement_brace (first : Token) (ts : List Token) :
    beginsStatement first (ts ++ brace :: more) = beginsStatement first ts := by
  unfold beginsStatement
  rw [startsVariable_brace hk]

theorem beginsAtRule_brace (first : Token) (ts : List Token) :
    BeginsAtRule first (ts ++ brace :: more) ↔ BeginsAtRule first ts := by
  have hv := startsVariable_brace hk more first ts
  exact ⟨fun h => ⟨h.kind, hv ▸ h.notVariable, h.named⟩,
    fun h => ⟨h.kind, hv ▸ h.notVariable, h.named⟩⟩

/-- The extent of a statement that stops at its own semicolon or opening brace. -/
theorem extentOf_cut {first stop : Token} {ts rest : List Token} {e : Statement.Extent}
    (h : Statement.extentOf first (ts ++ stop :: (rest ++ brace :: more)) = e)
    (hw : e.width = ts.length + 1) (hs : e.stop ≠ .closeBrace) :
    Statement.extentOf first (ts ++ stop :: rest) = e := by
  have hbrace := Statement.extentOf_beforeBrace hk first (ts ++ stop :: rest) more
  rw [List.append_assoc, List.cons_append, h] at hbrace
  refine Statement.Extent.eq_of_atBrace (hbrace.eq_of_width_le ?_) hs
  rw [hw, List.length_append]
  omega

theorem extentOf_extend {first : Token} {ts : List Token} {e : Statement.Extent}
    (h : Statement.extentOf first ts = e) (hs : ∀ paren, e.stop ≠ .unclosed paren) :
    Statement.extentOf first (ts ++ brace :: more) = e.atBrace := by
  subst h
  exact (Statement.extentOf_beforeBrace hk first ts more).eq_of_stop hs

/-- A closing brace is no blank or comment that a statement leaves behind. -/
theorem width_le_of_core {ts rest : List Token} {n : Nat}
    (core : ts = (splitTrivia ((ts ++ rest ++ brace :: more).take n)).1) :
    n ≤ (ts ++ rest).length := by
  by_contra hn
  obtain ⟨k, hk'⟩ : ∃ k, n = (ts ++ rest).length + (k + 1) :=
    ⟨n - (ts ++ rest).length - 1, by omega⟩
  rw [hk', List.take_length_add_append, List.take_succ_cons] at core
  have hsplit := splitTrivia_append (ts ++ rest ++ brace :: more.take k)
  rw [← core, List.append_assoc, List.append_cancel_left_eq] at hsplit
  have hmem : brace ∈ (splitTrivia (ts ++ rest ++ brace :: more.take k)).2 := by
    rw [List.append_assoc, hsplit]
    simp
  have htrivia := isTrivia_of_mem_splitTrivia hmem
  rw [hk] at htrivia
  cases htrivia

/-- **What a step takes before a closing brace** it also takes where the input ends instead. -/
theorem Step.cut {d d' : Draft} {taken rest : List Token}
    (h : Step d taken (rest ++ brace :: more) d') : Step d taken rest d' := by
  have hcons : ∀ (ts : List Token) (t : Token),
      ts ++ t :: (rest ++ brace :: more) = (ts ++ t :: rest) ++ brace :: more := by simp
  generalize hall : rest ++ brace :: more = all at h
  cases h with
  | blank kind => exact .blank kind
  | close kind closes => exact .close kind closes
  | comment kind => exact .comment kind
  | bare kind => exact .bare kind
  | block begins extent kind =>
    subst hall
    rw [hcons, beginsStatement_brace hk] at begins
    exact .block begins (extentOf_cut hk more extent rfl (by simp)) kind
  | ended begins extent kind simple =>
    subst hall
    rw [hcons, beginsStatement_brace hk] at begins
    exact .ended begins (extentOf_cut hk more extent rfl (by simp)) kind simple
  | @unended first ts _ e _ begins extent stop core simple =>
    subst hall
    rw [← List.append_assoc] at begins extent core
    rw [beginsStatement_brace hk] at begins
    have hbrace := Statement.extentOf_beforeBrace hk first (ts ++ rest) more
    rw [extent] at hbrace
    have hw := width_le_of_core hk more core
    obtain rfl := hbrace.eq_of_width_le (by omega)
    rw [List.take_append_of_le_length hw] at core
    exact .unended begins rfl ((Statement.Extent.stop_atBrace _).1 stop) core simple
  | atRuleAtEnd => simp at hall
  | atRuleEnded begins params kind =>
    subst hall
    rw [hcons, beginsAtRule_brace hk] at begins
    exact .atRuleEnded begins params kind
  | atRuleOpened begins params kind =>
    subst hall
    rw [hcons, beginsAtRule_brace hk] at begins
    exact .atRuleOpened begins params kind
  | atRuleClosed begins params kind closes =>
    subst hall
    rw [hcons, beginsAtRule_brace hk] at begins
    exact .atRuleClosed begins params kind closes

theorem Reads.cut {d d' : Draft} {ts rest : List Token}
    (h : Reads d ts (rest ++ brace :: more) d') : Reads d ts rest d' := by
  generalize hall : rest ++ brace :: more = all at h
  induction h with
  | nil d => exact .nil d rest
  | cons head tail ih =>
    subst hall
    rw [← List.append_assoc] at head
    exact .cons (head.cut hk more) (ih rfl)

/-- An at-rule at the end of the input, and the closing brace that would end it. -/
theorem read_atRule_brace {first : Token} {ts : List Token} (d : Draft)
    (begins : BeginsAtRule first ts) (params : ∀ t ∈ ts, endsParams t = false) :
    d.read (first :: (ts ++ brace :: more)) =
      (d.push (.atRule (.ofTokens d.spaces first ts))).read (brace :: more) := by
  have hbegins := (beginsAtRule_brace hk more first ts).2 begins
  rw [read, step_eq_atRule hbegins.kind hbegins.notVariable,
    atRule_before d begins.named params (by simp [endsParams, hk]), read, step, hk]
  cases (d.push (.atRule (.ofTokens d.spaces first ts))).close brace with
  | error e => rfl
  | ok d' => simp [Except.map]

/-- **What a step takes at the end of the input** it also takes before a closing brace. Only an at-rule
at the end is another node there, among the same open blocks. -/
theorem Step.extend {d d' : Draft} {taken rest : List Token} (h : Step d taken rest d') :
    Step d taken (rest ++ brace :: more) d' ∨
      rest = [] ∧ ∃ d₁ : Draft, d₁.openings = d'.openings ∧
        d.read (taken ++ brace :: more) = d₁.read (brace :: more) := by
  have hcons : ∀ (ts : List Token) (t : Token),
      (ts ++ t :: rest) ++ brace :: more = ts ++ t :: (rest ++ brace :: more) := by simp
  cases h with
  | blank kind => exact .inl (.blank kind)
  | close kind closes => exact .inl (.close kind closes)
  | comment kind => exact .inl (.comment kind)
  | bare kind => exact .inl (.bare kind)
  | block begins extent kind =>
    rw [← beginsStatement_brace hk more, hcons] at begins
    have hextent := extentOf_extend hk more extent (by simp)
    rw [hcons] at hextent
    exact .inl (.block begins hextent kind)
  | ended begins extent kind simple =>
    rw [← beginsStatement_brace hk more, hcons] at begins
    have hextent := extentOf_extend hk more extent (by simp)
    rw [hcons] at hextent
    exact .inl (.ended begins hextent kind simple)
  | @unended first ts _ e _ begins extent stop core simple =>
    have hfits := Statement.extentOf_fits first (ts ++ rest)
    have hw : e.width - 1 ≤ (ts ++ rest).length := by
      have := hfits.width_le
      rw [extent, List.length_cons] at this
      omega
    have hopen : ∀ paren, e.stop ≠ .unclosed paren := by
      rcases stop with stop | stop <;> simp [stop]
    have hextent := extentOf_extend hk more extent hopen
    have htake : ((ts ++ rest) ++ brace :: more).take (e.width - 1) =
        (ts ++ rest).take (e.width - 1) := List.take_append_of_le_length hw
    rw [← htake, List.append_assoc] at core
    rw [← beginsStatement_brace hk more, List.append_assoc] at begins
    rw [List.append_assoc] at hextent
    exact .inl (.unended begins hextent ((Statement.Extent.stop_atBrace e).2 stop) core simple)
  | @atRuleAtEnd first ts begins params =>
    refine .inr ⟨rfl, _, ?_, read_atRule_brace hk more d begins params⟩
    rw [openings_push]
    exact (openings_push d _).symm
  | atRuleEnded begins params kind =>
    rw [← beginsAtRule_brace hk more, hcons] at begins
    exact .inl (.atRuleEnded begins params kind)
  | atRuleOpened begins params kind =>
    rw [← beginsAtRule_brace hk more, hcons] at begins
    exact .inl (.atRuleOpened begins params kind)
  | atRuleClosed begins params kind closes =>
    rw [← beginsAtRule_brace hk more, hcons] at begins
    exact .inl (.atRuleClosed begins params kind closes)

/-- With a closing brace in place of the end of the input, a reading comes to that brace among the same
open blocks. -/
theorem Reads.exists_read_eq {d d' : Draft} {ts : List Token} (h : Reads d ts [] d') :
    ∃ d₁ : Draft, d₁.openings = d'.openings ∧
      d.read (ts ++ brace :: more) = d₁.read (brace :: more) := by
  generalize hnil : ([] : List Token) = rest at h
  induction h with
  | nil d => exact ⟨d, rfl, rfl⟩
  | @cons d d₁ d₂ taken ts _ head tail ih =>
    subst hnil
    rw [List.append_nil] at head
    rcases head.extend hk more with hstep | ⟨rfl, d₃, hopenings, hread⟩
    · obtain ⟨d₃, hopenings, hread⟩ := ih rfl
      exact ⟨d₃, hopenings, by rw [List.append_assoc, hstep.read_eq, hread]⟩
    · have hd : d₂ = d₁ := Except.ok.inj (tail.read_eq_ok.symm.trans (by rw [read]))
      exact ⟨d₃, hd ▸ hopenings, by rw [List.append_nil, hread]⟩

end Brace

/-! ## Closing all blocks -/

/-- A closing brace finishes the innermost open block, and all that was finished stays. -/
theorem exists_close {d : Draft} {brace : Token} {o : Opening} {os : List Opening}
    (h : d.openings = o :: os) :
    ∃ d₁ n, d.close brace = .ok d₁ ∧ d₁.openings = os ∧ d.finished ⊆ d₁.finished ∧
      (n, os.length) ∈ d₁.finished ∧ n.span = ⟨o.start, brace.span.first⟩ := by
  have hclose : ∃ d₁, d.close brace = .ok d₁ := by
    obtain ⟨f, fs, hf, -, -⟩ := List.map_eq_cons_iff.1 h
    unfold close
    rw [hf]
    exact ⟨_, rfl⟩
  obtain ⟨d₁, hd₁⟩ := hclose
  obtain ⟨o', os', children, hopenings, hopenings', hfinished⟩ := finished_close hd₁
  obtain ⟨rfl, rfl⟩ := List.cons.inj (h.symm.trans hopenings)
  exact ⟨d₁, _, hd₁, hopenings', fun n hn => (hfinished n).2 (.inl hn), (hfinished _).2 (.inr rfl),
    Opening.span_close _ _ _ _⟩

/-- As many closing braces as blocks are open finish all of these, one each. -/
theorem exists_read_braces {d : Draft} {braces : List Token}
    (hlen : braces.length = d.openings.length) (hk : ∀ t ∈ braces, t.kind = .closeBrace) :
    ∃ d', d.read braces = .ok d' ∧ d'.frames = [] ∧ d.finished ⊆ d'.finished ∧
      ∀ (j : Nat) (o : Opening) (brace : Token), d.openings[j]? = some o → braces[j]? = some brace →
        ∃ n, (n, d.openings.length - 1 - j) ∈ d'.finished ∧
          n.span = ⟨o.start, brace.span.first⟩ := by
  induction braces generalizing d with
  | nil =>
    have hnil : d.openings = [] := List.length_eq_zero_iff.1 hlen.symm
    exact ⟨d, by rw [read], List.map_eq_nil_iff.1 hnil, List.Subset.refl _, by simp [hnil]⟩
  | cons brace braces ih =>
    obtain ⟨o, os, hos⟩ := List.exists_cons_of_length_eq_add_one hlen.symm
    obtain ⟨d₁, n, hclose, hos₁, hsubset, hn, hspan⟩ := exists_close hos
    rw [hos, List.length_cons, List.length_cons, Nat.succ_inj] at hlen
    obtain ⟨d', hread, hframes, hsubset₁, hall⟩ :=
      ih (hos₁ ▸ hlen) fun t ht => hk t (List.mem_cons_of_mem _ ht)
    have hstep : Step d [brace] braces d₁ := .close (hk brace List.mem_cons_self) hclose
    refine ⟨d', hstep.read_eq.trans hread, hframes, List.Subset.trans hsubset hsubset₁, ?_⟩
    intro j o' brace' ho' hbrace'
    rw [hos] at ho' ⊢
    cases j with
    | zero =>
      cases ho'
      cases hbrace'
      exact ⟨n, hsubset₁ (by simpa using hn), hspan⟩
    | succ j =>
      obtain ⟨m, hm, hspan'⟩ := hall j o' brace' (hos₁ ▸ ho') hbrace'
      refine ⟨m, ?_, hspan'⟩
      rw [hos₁] at hm
      rwa [List.length_cons, Nat.add_sub_cancel, Nat.sub_add_eq, Nat.sub_right_comm]

end Draft

namespace Sheet

/-- An unclosed block is found at the end only. -/
theorem read_of_unclosedBlock {ts : List Token} {p : Position}
    (h : ofTokens ts = .error ⟨.unclosedBlock, p⟩) :
    ∃ d o os, Draft.start.read ts = .ok d ∧ d.openings = o :: os ∧ o.start = p := by
  unfold ofTokens at h
  split at h
  · next e hread =>
    obtain rfl := Except.error.inj h
    obtain ⟨_, _, _, _, -, -, hfails⟩ := Draft.exists_fails hread
    cases hfails
  · next d hread =>
    unfold Draft.finish at h
    split at h
    · cases h
    · next f fs hf =>
      cases h
      exact ⟨d, f.opening, fs.map Frame.opening, hread, by rw [Draft.openings, hf]; rfl, rfl⟩

/-- An unexpected brace is found where no block is open, and what stands before it can be read. -/
theorem reads_of_unexpectedClose {ts : List Token} {p : Position}
    (h : ofTokens ts = .error ⟨.unexpectedClose, p⟩) :
    ∃ taken brace rest d, ts = taken ++ brace :: rest ∧ brace.kind = .closeBrace ∧
      brace.span.first = p ∧ Draft.start.read taken = .ok d ∧ d.frames = [] := by
  unfold ofTokens at h
  split at h
  · next e hread =>
    obtain rfl := Except.error.inj h
    obtain ⟨taken, t, rest, d, rfl, hreads, hfails⟩ := Draft.exists_fails hread
    cases hfails with
    | close kind closed =>
      have hbefore : Draft.Reads .start taken [] d := Draft.Reads.cut kind rest hreads
      exact ⟨taken, t, rest, d, rfl, kind, rfl, hbefore.read_eq_ok, closed⟩
    | @atRuleClosed brace us more begins params kind closed =>
      -- the at-rule that the brace ends can be read too
      have hbefore : Draft.Reads .start taken (t :: us) d := Draft.Reads.cut kind more hreads
      have hstep : Draft.Step d (t :: us) [] _ :=
        .atRuleAtEnd ((Draft.beginsAtRule_brace kind more t us).1 begins) params
      have hread := hstep.read_eq
      rw [List.append_nil, Draft.read] at hread
      exact ⟨taken ++ t :: us, brace, more, _, by simp, kind, rfl, hbefore.read_eq.trans hread,
        Draft.frames_push_eq_nil_iff.2 closed⟩
  · next d hread =>
    unfold Draft.finish at h
    split at h <;> cases h

/-- **The two faults about braces are exact.** If a closing brace is unexpected, the tokens before it
are a sheet. If a block is unclosed, all tokens can be read, and with as many closing braces after them
as blocks are then open they are a sheet, in which each of the braces closes one of these blocks, from
the inside out; the fault is reported at the start of the innermost. -/
theorem brace_faults (ts : List Token) :
    (∀ p, ofTokens ts = .error ⟨.unexpectedClose, p⟩ →
      ∃ i brace, ts[i]? = some brace ∧ brace.kind = .closeBrace ∧ brace.span.first = p ∧
        ∃ sheet, ofTokens (ts.take i) = .ok sheet) ∧
    ∀ p, ofTokens ts = .error ⟨.unclosedBlock, p⟩ →
      ∃ d o os, Draft.start.read ts = .ok d ∧ d.openings = o :: os ∧ o.start = p ∧
        ∀ braces : List Token, braces.length = os.length + 1 →
          (∀ t ∈ braces, t.kind = .closeBrace) →
          ∃ sheet, ofTokens (ts ++ braces) = .ok sheet ∧
            ∀ (j : Nat) (o' : Opening) (brace : Token), d.openings[j]? = some o' →
              braces[j]? = some brace →
              ∃ n, (n, os.length - j) ∈ sheet.walk ∧ n.span = ⟨o'.start, brace.span.first⟩ := by
  refine ⟨fun p h => ?_, fun p h => ?_⟩
  · obtain ⟨taken, brace, rest, d, rfl, hk, hp, hread, hframes⟩ := reads_of_unexpectedClose h
    refine ⟨taken.length, brace, by simp, hk, hp, ⟨d.roots.reverse, d.spaces, d.mixins⟩, ?_⟩
    rw [List.take_left, ofTokens, hread]
    simp only [Draft.finish, hframes]
  · obtain ⟨d, o, os, hread, hos, hp⟩ := read_of_unclosedBlock h
    refine ⟨d, o, os, hread, hos, hp, fun braces hlen hk => ?_⟩
    obtain ⟨brace, more, rfl⟩ := List.exists_cons_of_length_eq_add_one hlen
    have hreads := Draft.reads_nil_iff.2 (Draft.run_of_read hread)
    obtain ⟨d₁, hos₁, hread₁⟩ := hreads.exists_read_eq (hk brace List.mem_cons_self) more
    rw [← hos₁] at hos ⊢
    obtain ⟨d', hd', hframes, -, hall⟩ := Draft.exists_read_braces (by rw [hos, hlen]; rfl) hk
    refine ⟨⟨d'.roots.reverse, d'.spaces, d'.mixins⟩, ?_, ?_⟩
    · rw [ofTokens, hread₁, hd']
      simp only [Draft.finish, hframes]
    · intro j o' brace' ho' hbrace'
      have := hall j o' brace' ho' hbrace'
      rwa [Draft.finished_of_frames hframes, hos, List.length_cons, Nat.add_sub_cancel] at this

theorem brace_faults_samples :
    (∃ ts i sheet, Token.tokenize ['a', '{', '}', '@', 'b', ' ', '}'] = .ok ts ∧
      ofTokens ts = .error ⟨.unexpectedClose, ⟨1, 7⟩⟩ ∧ ofTokens (ts.take i) = .ok sheet) ∧
    ∃ ts d o braces sheet, Token.tokenize ['{', 'a', '{', '@', 'b', ' '] = .ok ts ∧
      ofTokens ts = .error ⟨.unclosedBlock, ⟨1, 2⟩⟩ ∧ Draft.start.read ts = .ok d ∧
      d.openings.head? = some o ∧ o.start = ⟨1, 2⟩ ∧
      (∀ t ∈ braces, t.kind = Token.Kind.closeBrace) ∧ ofTokens (ts ++ braces) = .ok sheet := by
  constructor
  · obtain ⟨ts, hts, herror⟩ := exists_of_parse_eq_error (e := ⟨.unexpectedClose, ⟨1, 7⟩⟩)
      (s := ['a', '{', '}', '@', 'b', ' ', '}']) (by decide +kernel) (by decide +kernel)
    obtain ⟨i, brace, -, -, -, sheet, hsheet⟩ := (brace_faults ts).1 _ herror
    exact ⟨ts, i, sheet, hts, herror, hsheet⟩
  · obtain ⟨ts, hts, herror⟩ := exists_of_parse_eq_error (e := ⟨.unclosedBlock, ⟨1, 2⟩⟩)
      (s := ['{', 'a', '{', '@', 'b', ' ']) (by decide +kernel) (by decide +kernel)
    obtain ⟨d, o, os, hread, hos, hp, hclose⟩ := (brace_faults ts).2 _ herror
    have hbraces : ∀ t ∈ List.replicate (os.length + 1)
        (⟨.closeBrace, ['}'], ⟨⟨2, 1⟩, ⟨2, 1⟩⟩⟩ : Token), t.kind = .closeBrace := by
      intro t ht
      rw [List.eq_of_mem_replicate ht]
    obtain ⟨sheet, hsheet, -⟩ := hclose _ List.length_replicate hbraces
    exact ⟨ts, d, o, _, sheet, hts, herror, hread, by rw [hos]; rfl, hp, hbraces, hsheet⟩

end Sheet

end LessStyle
