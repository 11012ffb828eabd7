import LessStyle.Proofs.Sheet.Cursor.Nodes
import Mathlib.Data.List.Forall2
import Mathlib.Data.List.TakeWhile

/-!
# Indices stay in range

A scan with indices comes to the end of the same statement as the extent of a list of tokens
(`Cursor.scan_finds`), so a round of the reader does what a step does (`Cursor.agrees_read`): it answers,
and the cursor goes on. It does so although a statement that no semicolon ends takes the cursor back from
a closing brace and over blanks and comments. So the reader comes to an end, with the sheet of the tokens
(`Cursor.run_tokens`).
-/

namespace LessStyle

open Text
open Token (slice?)

namespace Cursor

/-! ## Where a statement stops -/

/-- The scan from index `pos` has come to the end `e` of a statement. -/
structure Scan.Finds (s : Scan) (ts : List Token) (pos : Nat) (e : Statement.Extent) : Prop where
  pos_eq : s.pos = pos + e.width
  colon_eq : s.colon = e.colon
  stop :
    match e.stop with
    | .semicolon t => s.stop = some .semicolon ∧ s.opened = [] ∧ ts[s.pos]? = some t
    | .openBrace => s.stop = some .openBrace ∧ s.pos < ts.length
    | .closeBrace => s.stop = some .closeBrace ∧ s.opened = [] ∧ s.pos < ts.length
    | .inputEnd => s.stop = none ∧ s.opened = [] ∧ s.pos = ts.length
    | .unclosed paren => s.stop = none ∧ s.pos = ts.length ∧
        ∃ i, s.opened.getLast? = some i ∧ ts[i]? = some paren

theorem Scan.Finds.succ {s : Scan} {ts : List Token} {pos : Nat} {e : Statement.Extent}
    (h : s.Finds ts (pos + 1) e) : s.Finds ts pos e.succ := by
  refine ⟨?_, h.colon_eq, h.stop⟩
  change s.pos = pos + (e.width + 1)
  rw [h.pos_eq]
  omega

/-- The outermost of the open parentheses. -/
theorem exists_getLast? {R : Nat → Token → Prop} {is : List Nat} {ts : List Token} {t : Token}
    (h : List.Forall₂ R is ts) (ht : ts.getLast? = some t) :
    ∃ i, is.getLast? = some i ∧ R i t := by
  have hreverse := List.rel_reverse h
  rw [← List.head?_reverse] at ht
  simp only [← List.head?_reverse]
  generalize is.reverse = is' at hreverse ⊢
  obtain ⟨us, hus⟩ := List.head?_eq_some_iff.1 ht
  rw [hus] at hreverse
  cases hreverse with
  | cons hi _ => exact ⟨_, rfl, hi⟩

/-- A scan finds the extent of the statement. The indices of the open parentheses are those of the
tokens that the extent keeps. -/
theorem scan_finds {ts parens : List Token} {pos : Nat} {opened : List Nat} (colon : Bool)
    (hpos : pos ≤ ts.length) (hopened : List.Forall₂ (fun i t => ts[i]? = some t) opened parens) :
    (scan ts pos opened colon).Finds ts pos (Statement.extent parens colon (ts.drop pos)) := by
  fun_induction scan ts pos opened colon generalizing parens with
  | case1 pos colon h opened hk ih =>
    rw [List.drop_eq_getElem_cons h]
    simp only [Statement.extent, hk]
    exact (ih h (.cons (List.getElem?_eq_getElem h) hopened)).succ
  | case2 pos colon h i opened hk ih =>
    obtain _ | ⟨-, hopened⟩ := hopened
    rw [List.drop_eq_getElem_cons h]
    simp only [Statement.extent, hk]
    exact (ih h hopened).succ
  | case3 pos colon h i opened hopen hclose ih =>
    obtain _ | ⟨hi, hopened⟩ := hopened
    rw [List.drop_eq_getElem_cons h]
    simp only [Statement.extent]
    exact (ih h (.cons hi hopened)).succ
  | case4 pos colon h hk =>
    obtain _ | _ := hopened
    rw [List.drop_eq_getElem_cons h]
    simp only [Statement.extent, hk]
    exact ⟨rfl, rfl, rfl, rfl, List.getElem?_eq_getElem h⟩
  | case5 pos colon h hk =>
    obtain _ | _ := hopened
    rw [List.drop_eq_getElem_cons h]
    simp only [Statement.extent, hk]
    exact ⟨rfl, rfl, rfl, h⟩
  | case6 pos colon h hk =>
    obtain _ | _ := hopened
    rw [List.drop_eq_getElem_cons h]
    simp only [Statement.extent, hk]
    exact ⟨rfl, rfl, rfl, rfl, h⟩
  | case7 pos colon h hk ih =>
    obtain _ | _ := hopened
    rw [List.drop_eq_getElem_cons h]
    simp only [Statement.extent, hk]
    exact (ih h .nil).succ
  | case8 pos colon h =>
    rename_i ih
    obtain _ | _ := hopened
    rw [List.drop_eq_getElem_cons h]
    simp only [Statement.extent]
    exact (ih h .nil).succ
  | case9 pos opened colon h =>
    have hend : pos = ts.length := by omega
    rw [List.drop_eq_nil_of_le (Nat.le_of_not_lt h), Statement.extent]
    cases hparens : parens.getLast? with
    | some paren => exact ⟨rfl, rfl, rfl, hend, exists_getLast? hopened hparens⟩
    | none =>
      obtain rfl := List.getLast?_eq_none_iff.1 hparens
      obtain _ | _ := hopened
      exact ⟨rfl, rfl, rfl, rfl, hend⟩

/-! ## Statements -/

section Statements

variable {ts rest : List Token} {first : Token} {c : Cursor}

theorem getElem?_pos (h : ts.drop c.pos = first :: rest) : ts[c.pos]? = some first := by
  obtain ⟨hpos, hfirst, -⟩ := drop_eq_cons h
  rw [List.getElem?_eq_getElem hpos, hfirst]

theorem simple?_eq {n : Nat} (semicolon : Option Token) (h : ts.drop c.pos = first :: rest)
    (hn : n ≤ rest.length) (hsemicolon : ∀ t ∈ semicolon, ts[c.pos + (n + 1)]? = some t)
    (colon : Bool) (pos : Nat) :
    simple? ts c colon (c.pos + (n + 1)) semicolon.isSome pos =
      some ((c.draft.simple colon first (rest.take n) semicolon).map (⟨pos, ·⟩)) := by
  rw [simple?]
  cases colon with
  | true =>
    simp only [if_true, declaration?_eq _ h hn hsemicolon, Option.bind_eq_bind, Option.bind_some,
      Draft.simple]
    rfl
  | false =>
    simp only [Bool.false_eq_true, if_false, call?_eq c.draft h hn hsemicolon, Option.bind_eq_bind,
      Option.bind_some]
    rfl

/-- Back over blanks and comments, and the statement up to there. -/
theorem unended?_eq {n : Nat} (h : ts.drop c.pos = first :: rest) (hn : n ≤ rest.length)
    (colon : Bool) :
    unended? ts c colon (c.pos + n) =
      some ((c.draft.simple colon first (splitTrivia (rest.take n)).1 none).map
        (⟨c.pos + (splitTrivia (rest.take n)).1.length, ·⟩)) := by
  obtain ⟨-, -, hrest⟩ := drop_eq_cons h
  have hfront : rest.take n <+: ts.drop (c.pos + 1) := by
    rw [hrest]
    exact List.take_prefix n rest
  have hback := back?_eq c.pos 1 hfront
  rw [List.length_take_of_le hn] at hback
  have hcore : (splitTrivia (rest.take n)).1 <+: rest :=
    (splitTrivia_isPrefix _).trans (List.take_prefix n rest)
  have hsimple := simple?_eq none h hcore.length_le (by simp) colon
    (c.pos + (splitTrivia (rest.take n)).1.length)
  rw [← List.prefix_iff_eq_take.1 hcore] at hsimple
  rw [unended?, hback, ← hsimple]
  rfl

/-- The statement that a scan has found. -/
theorem ofScan?_eq {s : Scan} {w : Nat} {stop : Statement.Stop} {colon : Bool}
    (h : ts.drop c.pos = first :: rest) (hs : s.Finds ts c.pos ⟨w + 1, stop, colon⟩) :
    ofScan? ts c s =
      some (match stop with
        | .unclosed paren => .error ⟨.unclosedParen, paren.span.first⟩
        | .openBrace => .ok ⟨c.pos + (w + 1), c.draft.enterBlock first (rest.take w)⟩
        | .semicolon t =>
          (c.draft.simple colon first (rest.take w) (some t)).map (⟨c.pos + (w + 1), ·⟩)
        | .closeBrace | .inputEnd =>
          (c.draft.simple colon first (splitTrivia (rest.take w)).1 none).map
            (⟨c.pos + (splitTrivia (rest.take w)).1.length, ·⟩)) := by
  obtain ⟨pos, opened, colon, stop'⟩ := s
  obtain ⟨hpos, hcolon, hstop⟩ := hs
  dsimp only at hpos hcolon hstop
  subst hpos hcolon
  have hlen := length_of_drop_eq_cons h
  have hsub : (c.pos + (w + 1)).psub 1 = some (c.pos + w) := Nat.psub_eq_some.2 rfl
  cases stop with
  | unclosed paren =>
    obtain ⟨rfl, hend, i, hi, hparen⟩ := hstop
    rw [hend] at hsub
    simp only [ofScan?, reduceCtorEq, decide_false, Bool.false_eq_true, if_false,
      Option.bind_eq_bind, Option.bind_some, hend, decide_true, if_true, hsub, hi, hparen]
    rfl
  | openBrace =>
    obtain ⟨rfl, hend⟩ := hstop
    have hblock := block?_eq c.draft h (show w ≤ rest.length by omega)
    simp only [ofScan?, hblock, Option.bind_eq_bind, Option.bind_some]
    rfl
  | semicolon t =>
    obtain ⟨rfl, rfl, ht⟩ := hstop
    have hlt := (List.getElem?_eq_some_iff.1 ht).1
    have hsimple := simple?_eq (some t) h (show w ≤ rest.length by omega)
      (by simpa using ht)
    cases colon with
    | true =>
      simp only [ofScan?]
      exact hsimple true _
    | false =>
      have hend : ¬ c.pos + (w + 1) = ts.length := Nat.ne_of_lt hlt
      simp only [ofScan?, Option.some.injEq, reduceCtorEq, decide_false, Bool.false_eq_true,
        if_false, Option.bind_eq_bind, Option.bind_some, hend, List.getLast?_nil, Bool.or_false]
      exact hsimple false _
  | closeBrace =>
    obtain ⟨rfl, rfl, hlt⟩ := hstop
    have hend : ¬ c.pos + w = ts.length := by omega
    simp only [ofScan?, decide_true, if_true, hsub, Option.bind_eq_bind, Option.bind_some, hend,
      decide_false, Bool.false_eq_true, if_false, List.getLast?_nil, Bool.or_false]
    exact unended?_eq h (by omega) colon
  | inputEnd =>
    obtain ⟨rfl, rfl, hend⟩ := hstop
    rw [hend] at hsub
    simp only [ofScan?, reduceCtorEq, decide_false, Bool.false_eq_true, if_false,
      Option.bind_eq_bind, Option.bind_some, hend, decide_true, if_true, hsub, List.getLast?_nil,
      Bool.or_true]
    exact unended?_eq h (by omega) colon

theorem statement?_eq (h : ts.drop c.pos = first :: rest)
    (hb : Draft.beginsStatement first rest = true) :
    statement? ts c =
      some ((c.draft.statement first rest).map fun (d, n) => ⟨c.pos + n, d⟩) := by
  obtain ⟨hlt, -, -⟩ := drop_eq_cons h
  obtain ⟨w, hw⟩ := Draft.exists_width hb
  have hfinds := scan_finds (Statement.holdsColon first) (Nat.le_of_lt hlt) (.nil (α := Nat))
  rw [h] at hfinds
  change Scan.Finds _ _ _ (Statement.extentOf first rest) at hfinds
  rw [statement?, getElem?_pos h, Draft.statement_eq c.draft rfl]
  generalize Statement.extentOf first rest = e at hw hfinds ⊢
  obtain ⟨width, stop, colon⟩ := e
  dsimp only at hw
  subst hw
  refine (ofScan?_eq h hfinds).trans (congrArg some ?_)
  cases stop with
  | unclosed paren => rfl
  | openBrace => rfl
  | semicolon t =>
    simp only [Nat.add_sub_cancel]
    cases c.draft.simple colon first (rest.take w) (some t) <;> rfl
  | closeBrace | inputEnd =>
    simp only [Nat.add_sub_cancel]
    cases c.draft.simple colon first (splitTrivia (rest.take w)).1 none <;> rfl

end Statements

/-! ## Rounds -/

/-- The reader at index `pos` gives the answer of a step: the same error, or the same draft, with the
same tokens left after the cursor, which has not gone back. -/
def Agrees (ts : List Token) (pos : Nat) :
    Except SyntaxError Cursor → Except SyntaxError (Draft × Nat) → Prop
  | .error e, .error e' => e = e'
  | .ok c, .ok (d, n) => c.draft = d ∧ pos ≤ c.pos ∧ ts.drop (c.pos + 1) = ts.drop (pos + 1 + n)
  | _, _ => False

theorem agrees_map {ts : List Token} {pos pos' n : Nat} (x : Except SyntaxError Draft)
    (hpos : pos ≤ pos') (hdrop : ts.drop (pos' + 1) = ts.drop (pos + 1 + n)) :
    Agrees ts pos (x.map (⟨pos', ·⟩)) (x.map (·, n)) := by
  cases x with
  | error e => rfl
  | ok d => exact ⟨rfl, hpos, hdrop⟩

section Rounds

variable {ts rest : List Token} {first : Token} {c : Cursor}

theorem agrees_statement (h : ts.drop c.pos = first :: rest)
    (hb : Draft.beginsStatement first rest = true) :
    ∃ answer, statement? ts c = some answer ∧
      Agrees ts c.pos answer (c.draft.statement first rest) := by
  refine ⟨_, statement?_eq h hb, ?_⟩
  cases c.draft.statement first rest with
  | error e => rfl
  | ok x => exact ⟨rfl, Nat.le_add_right _ _, by rw [Nat.add_right_comm]⟩

theorem agrees_atRule (h : ts.drop c.pos = first :: rest) (hk : first.kind = .atWord)
    (ho : first.kind.Outline first.text) :
    ∃ answer, atRule? ts c = some answer ∧ Agrees ts c.pos answer (c.draft.atRule first rest) := by
  obtain ⟨hlt, -, hrest⟩ := drop_eq_cons h
  obtain ⟨name, hname⟩ := ho.of_eq hk
  have hslice : first.text.sliceBytes? 1 first.text.byteLength = some (first.text.drop 1) := by
    rw [hname]
    exact sliceBytes?_right ['@'] name
  rw [atRule?, getElem?_pos h, Draft.atRule]
  simp only [Option.bind_eq_bind, Option.bind_some, hslice]
  by_cases hempty : first.text.drop 1 = []
  · rw [if_pos (List.isEmpty_iff.2 hempty), if_pos hempty]
    exact ⟨_, rfl, rfl⟩
  have hparams := (List.takeWhile_prefix (l := rest) (!Draft.endsParams ·)).length_le
  have hlen := length_of_drop_eq_cons h
  have hslice : slice? ts (c.pos + 1) (c.pos + 1 + (rest.takeWhile (!Draft.endsParams ·)).length) =
      some (rest.takeWhile (!Draft.endsParams ·)) := by
    rw [Token.slice?_add (by omega), hrest, take_length_takeWhile]
  have hdrop : ts.drop (c.pos + 1 + (rest.takeWhile (!Draft.endsParams ·)).length) =
      rest.drop (rest.takeWhile (!Draft.endsParams ·)).length := by
    rw [← List.drop_drop, hrest]
  rw [if_neg (by simpa using hempty), if_neg hempty, collect_eq, hrest, hslice]
  generalize rest.takeWhile (!Draft.endsParams ·) = params at hdrop ⊢
  simp only [Option.bind_some, atRuleOf?_eq, ← List.head?_drop, hdrop]
  cases hafter : rest.drop params.length with
  | nil =>
    refine ⟨_, rfl, rfl, by simp only; omega, ?_⟩
    rw [hafter] at hdrop
    simp only
    rw [hdrop, List.drop_eq_nil_iff]
    rw [List.drop_eq_nil_iff] at hdrop
    omega
  | cons t after =>
    have hpos : c.pos ≤ c.pos + 1 + params.length := by omega
    simp only [List.head?_cons]
    cases t.kind with
    | semicolon => exact ⟨_, rfl, rfl, hpos, by rw [Nat.add_assoc]⟩
    | openBrace => exact ⟨_, rfl, rfl, hpos, by rw [Nat.add_assoc]⟩
    | _ => exact ⟨_, rfl, agrees_map _ hpos (by rw [Nat.add_assoc])⟩

theorem startsVariable?_eq (h : ts.drop c.pos = first :: rest) :
    startsVariable? ts c.pos = some (Draft.startsVariable first rest) := by
  obtain ⟨hlt, -, hrest⟩ := drop_eq_cons h
  rw [startsVariable?, getElem?_pos h, Draft.startsVariable]
  simp only [Option.bind_eq_bind, Option.bind_some, Token.slice?_length hlt, hrest, ne_eq,
    decide_not, List.find?_not_eq_head?_dropWhile]
  cases first.text.contains ':' with
  | true => rfl
  | false => cases rest.dropWhile (fun t => decide (t.kind = .space)) <;> rfl

/-- **A round reads what a step reads**, and the cursor does not stand before the token that it began
with. -/
theorem agrees_read (h : ts.drop c.pos = first :: rest) (ho : first.kind.Outline first.text) :
    ∃ answer, read? ts c = some answer ∧ Agrees ts c.pos answer (c.draft.step first rest) := by
  have hstatement : Draft.beginsStatement first rest = true →
      ∃ answer, statement? ts c = some answer ∧ Agrees ts c.pos answer (c.draft.step first rest) := by
    intro hb
    rw [Draft.step_eq_statement hb]
    exact agrees_statement h hb
  rw [read?, getElem?_pos h]
  simp only [Option.bind_eq_bind, Option.bind_some]
  cases hk : first.kind with
  | space | semicolon | openBrace =>
    simp only [Draft.step, hk]
    exact ⟨_, rfl, rfl, Nat.le_refl _, rfl⟩
  | closeBrace =>
    simp only [Draft.step, hk]
    exact ⟨_, rfl, agrees_map _ (Nat.le_refl _) rfl⟩
  | lineComment | blockComment =>
    simp only [comment?_eq c.draft.spaces (by rw [hk]; rfl) ho, Option.bind_some, Draft.step, hk]
    exact ⟨_, rfl, rfl, Nat.le_refl _, rfl⟩
  | atWord =>
    simp only [startsVariable?_eq h, Option.bind_some]
    cases hv : Draft.startsVariable first rest with
    | true => exact hstatement (by rw [Draft.beginsStatement, hk]; exact hv)
    | false =>
      rw [Draft.step_eq_atRule hk hv]
      exact agrees_atRule h hk ho
  | _ => exact hstatement (by rw [Draft.beginsStatement, hk])

end Rounds

/-- The reader comes to the end of the tokens, and reads what is left of them. -/
theorem run_eq {ts : List Token} (ho : ∀ t ∈ ts, t.kind.Outline t.text) {n : Nat} {c : Cursor}
    (hn : ts.length - c.pos < n) :
    run ts c n = some (some (match c.draft.read (ts.drop c.pos) with
      | .error e => .error e
      | .ok d => d.finish)) := by
  induction n generalizing c with
  | zero => omega
  | succ n ih =>
    rw [run]
    by_cases hpos : c.pos < ts.length
    · obtain ⟨answer, hanswer, hagrees⟩ := agrees_read (List.drop_eq_getElem_cons hpos)
        (ho _ (List.getElem_mem hpos))
      rw [if_pos hpos, round, hanswer, List.drop_eq_getElem_cons hpos, Draft.read]
      cases hstep : c.draft.step ts[c.pos] (ts.drop (c.pos + 1)) with
      | error e =>
        rw [hstep] at hagrees
        cases answer with
        | error e' =>
          obtain rfl : e' = e := hagrees
          rfl
        | ok c' => cases hagrees
      | ok x =>
        obtain ⟨d, k⟩ := x
        rw [hstep] at hagrees
        cases answer with
        | error e' => cases hagrees
        | ok c' =>
          obtain ⟨rfl, hle, hdrop⟩ := hagrees
          have hrun := ih (c := ⟨c'.pos + 1, c'.draft⟩) (by dsimp only; omega)
          rw [hdrop, ← List.drop_drop] at hrun
          exact hrun
    · rw [if_neg hpos, List.drop_eq_nil_of_le (Nat.le_of_not_lt hpos), Draft.read]
      rfl

/-- A round answers, and takes the cursor further. -/
theorem exists_round {ts : List Token} (ho : ∀ t ∈ ts, t.kind.Outline t.text) {c : Cursor}
    (hpos : c.pos < ts.length) :
    ∃ answer, round ts c = some answer ∧ ∀ c', answer = .ok c' → c.pos < c'.pos := by
  obtain ⟨answer, hanswer, hagrees⟩ := agrees_read (List.drop_eq_getElem_cons hpos)
    (ho _ (List.getElem_mem hpos))
  refine ⟨_, by rw [round, hanswer]; rfl, fun c' hc' => ?_⟩
  obtain ⟨c₁, rfl, rfl⟩ := Draft.map_eq_ok hc'
  cases hstep : c.draft.step ts[c.pos] (ts.drop (c.pos + 1)) with
  | error e =>
    rw [hstep] at hagrees
    cases hagrees
  | ok x =>
    rw [hstep] at hagrees
    exact Nat.lt_succ_of_le hagrees.2.1

/-- **The reader of the tokens of a text is safe and comes to an end.** Wherever its cursor stands
before a token, a round gives an answer: no index or slice is out of range, and nothing is subtracted
from a smaller number. If the answer is no error, the cursor has moved on. So more rounds than there are
tokens are enough, and the reader ends with the sheet of the tokens, or with the error of their
reading. -/
theorem run_tokens {s : Text} {ts : List Token} (h : Token.tokenize s = .ok ts) :
    (∀ c : Cursor, c.pos < ts.length →
      ∃ answer, round ts c = some answer ∧ ∀ c', answer = .ok c' → c.pos < c'.pos) ∧
    ∀ n, ts.length < n → run ts start n = some (some (Sheet.ofTokens ts)) := by
  have ho := (Token.lexed_of_tokensFrom h).outlined
  refine ⟨fun c hpos => exists_round ho hpos, fun n hn => ?_⟩
  rw [run_eq ho (by dsimp only [start]; omega), Sheet.ofTokens]
  rfl

theorem run_tokens_sample :
    ∃ ts sheet, Token.tokenize Sheet.sampleSource = .ok ts ∧ start.pos < ts.length ∧
      (∃ answer, round ts start = some answer ∧ ∀ c', answer = .ok c' → start.pos < c'.pos) ∧
      run ts start (ts.length + 1) = some (some (.ok sheet)) := by
  obtain ⟨ts, sheet, hts, hsheet⟩ := Sheet.exists_of_isOk_parse Sheet.isOk_parse_sampleSource
  have hpos : start.pos < ts.length := by
    refine List.length_pos_iff.2 ?_
    rintro rfl
    have hjoin := (Token.lexed_of_tokensFrom hts).join_eq
    cases hjoin
  obtain ⟨hround, hrun⟩ := run_tokens hts
  rw [hsheet] at hrun
  exact ⟨ts, sheet, hts, hpos, hround start hpos, hrun _ (Nat.lt_succ_self _)⟩

end Cursor

end LessStyle
