import LessStyle.Proofs.Sheet.Origin
import Mathlib.Data.List.Forall2
import Mathlib.Data.List.TakeWhile

/-!
# Parameters of mixins

Between the parentheses of a definition every token with a name begins a parameter, and so does a bare
`...` where no parameter is being read. All other tokens belong to the parameter before them, if there
is one, and change neither its name nor its start. So the records stand in line with the tokens that
begin them (`Mixin.headedBy_paramsFrom`).

A parameter has its name from one token: what stands before the first colon, without `@` signs in
front, without commas at the end and then without dots at the end. The name is `Clean`, free of all
these marks, exactly if the token writes a `Single` parameter. An at-word goes on over commas and `@`
signs, so a token can also write several, and these become one record with one name.
-/

namespace LessStyle

open Text

namespace Mixin

/-! ## Names -/

/-- Three dots, the mark of a parameter that takes all remaining arguments. -/
def dots : Text := ['.', '.', '.']

/-- What a token writes of a name: the text before its first colon, without `@` signs in front. -/
def written (s : Text) : Text := (s.dropWhile (· == '@')).takeWhile (· != ':')

theorem name_named (before : Text) (t : Token) (variadic : Bool) :
    (named before t variadic).name = bareName (written t.text) := by
  unfold named written cutAt?
  generalize t.text.dropWhile (· == '@') = s
  dsimp only
  by_cases hcolon : s.contains ':' = true
  · rw [if_pos hcolon]
  · have hall : s.takeWhile (· != ':') = s := by
      rw [List.takeWhile_eq_self_iff]
      intro c hc
      simpa using fun heq : c = ':' => hcolon (by simpa [heq] using hc)
    rw [if_neg hcolon, hall]

theorem exists_dropDots (s : Text) : ∃ n, s = List.replicate (3 * n) '.' ++ dropDots s := by
  fun_induction dropDots s with
  | case1 s ih =>
    obtain ⟨n, hn⟩ := ih
    refine ⟨n + 1, ?_⟩
    rw [show 3 * (n + 1) = 3 * n + 1 + 1 + 1 by omega]
    simp only [List.replicate_succ, List.cons_append]
    rw [← hn]
  | case2 s => exact ⟨0, rfl⟩

theorem not_isPrefix_dropDots (s : Text) : ¬ dots <+: dropDots s := by
  fun_induction dropDots s with
  | case1 s ih => exact ih
  | case2 s hne =>
    rintro ⟨r, rfl⟩
    exact hne r rfl

/-- What `bareName` takes away: commas at the end, and dots before them. -/
theorem exists_bareName (s : Text) :
    ∃ n commas, s = bareName s ++ List.replicate (3 * n) '.' ++ commas ∧ ∀ c ∈ commas, c = ',' := by
  obtain ⟨n, hn⟩ := exists_dropDots (s.reverse.dropWhile (· == ','))
  refine ⟨n, (s.reverse.takeWhile (· == ',')).reverse, ?_, ?_⟩
  · have hsplit := List.takeWhile_append_dropWhile (p := (· == ',')) (l := s.reverse)
    rw [hn] at hsplit
    have hreverse := congrArg List.reverse hsplit
    rw [List.reverse_append, List.reverse_append, List.reverse_replicate, List.reverse_reverse]
      at hreverse
    exact hreverse.symm
  · intro c hc
    simpa using List.mem_takeWhile_imp (List.mem_reverse.1 hc)

theorem not_isSuffix_bareName (s : Text) : ¬ dots <:+ bareName s := by
  intro h
  have hfront := List.reverse_prefix.2 h
  rw [bareName, List.reverse_reverse] at hfront
  exact not_isPrefix_dropDots _ hfront

theorem bareName_isPrefix (s : Text) : bareName s <+: s := by
  obtain ⟨n, commas, hs, -⟩ := exists_bareName s
  exact ⟨List.replicate (3 * n) '.' ++ commas, by rw [← List.append_assoc, ← hs]⟩

/-- A name without the marks of parameters. -/
structure Clean (name : Text) : Prop where
  at_notMem : '@' ∉ name
  colon_notMem : ':' ∉ name
  comma_notMem : ',' ∉ name
  dots_not_isSuffix : ¬ dots <:+ name

/-- The text of one parameter: `@` signs, a name with its dots, commas, and then nothing or a colon
with a fallback value. -/
def Single (s : Text) : Prop :=
  ∃ ats name commas tail : Text, s = ats ++ (name ++ commas ++ tail) ∧ (∀ c ∈ ats, c = '@') ∧
    (∀ c ∈ name, c ∉ ['@', ':', ',']) ∧ (∀ c ∈ commas, c = ',') ∧ ∀ c ∈ tail.head?, c = ':'

theorem colon_notMem_written (s : Text) : ':' ∉ written s := by
  intro h
  simpa using List.mem_takeWhile_imp h

/-- What is written of a name begins with no `@` sign. -/
theorem head?_written_ne (s : Text) : (written s).head? ≠ some '@' := by
  intro h
  obtain ⟨r, hr⟩ := List.head?_eq_some_iff.1 h
  obtain ⟨more, hmore⟩ := List.takeWhile_prefix (l := s.dropWhile (· == '@')) (· != ':')
  have hnot := List.head?_dropWhile_not (· == '@') s
  rw [← hmore, show (s.dropWhile (· == '@')).takeWhile (· != ':') = '@' :: r from hr] at hnot
  simp at hnot

/-- The name before commas and a colon is written whole. -/
theorem written_of_parts {ats name commas tail : Text} (hats : ∀ c ∈ ats, c = '@')
    (hname : ∀ c ∈ name, c ∉ ['@', ':', ',']) (hcommas : ∀ c ∈ commas, c = ',')
    (htail : ∀ c ∈ tail.head?, c = ':') :
    written (ats ++ (name ++ commas ++ tail)) = name ++ commas := by
  have hdrop : (name ++ commas ++ tail).dropWhile (· == '@') = name ++ commas ++ tail := by
    rw [List.dropWhile_eq_self_iff]
    intro hpos hat
    have hhead : (name ++ commas ++ tail).head? = some '@' := by
      rw [List.head?_eq_getElem?, List.getElem?_eq_getElem hpos]
      simpa using hat
    rcases name with _ | ⟨c, name⟩
    · rcases commas with _ | ⟨c, commas⟩
      · exact absurd (htail '@' hhead) (by decide)
      · have hc := hcommas c List.mem_cons_self
        rw [hc] at hhead
        exact absurd hhead (by simp)
    · have hc := hname c List.mem_cons_self
      obtain rfl : c = '@' := by simpa using hhead
      simp at hc
  have hplain : ∀ c ∈ name ++ commas, (c != ':') = true := by
    intro c hc
    rcases List.mem_append.1 hc with hc | hc
    · have := hname c hc
      simp_all
    · rw [hcommas c hc]
      rfl
  rw [written, List.dropWhile_append_of_pos (by simpa using hats), hdrop]
  exact takeWhile_append_eq_left hplain fun c hc => by simp [htail c hc]

/-- Commas behind a name without commas are all that is taken away first. -/
theorem bareName_append {name commas : Text} (hname : ',' ∉ name) (hcommas : ∀ c ∈ commas, c = ',') :
    bareName (name ++ commas) <+: name := by
  have hall : ∀ c ∈ commas.reverse, (c == ',') = true := by
    intro c hc
    simpa using hcommas c (List.mem_reverse.1 hc)
  have hself : name.reverse.dropWhile (· == ',') = name.reverse := by
    rw [List.dropWhile_eq_self_iff]
    intro hpos hcomma
    have hmem : ',' ∈ name.reverse := by
      have := List.getElem_mem hpos
      rwa [eq_of_beq hcomma] at this
    exact hname (List.mem_reverse.1 hmem)
  obtain ⟨n, hn⟩ := exists_dropDots name.reverse
  rw [bareName, List.reverse_append, List.dropWhile_append_of_pos hall, hself]
  refine ⟨List.replicate (3 * n) '.', ?_⟩
  have hreverse := congrArg List.reverse hn
  rw [List.reverse_reverse, List.reverse_append, List.reverse_replicate] at hreverse
  exact hreverse.symm

/-- **The name of a parameter is clean** exactly if its token writes a single one. -/
theorem clean_bareName_iff (s : Text) : Clean (bareName (written s)) ↔ Single s := by
  constructor
  · intro h
    obtain ⟨n, commas, hwritten, hcommas⟩ := exists_bareName (written s)
    have hcolon := colon_notMem_written s
    refine ⟨s.takeWhile (· == '@'), bareName (written s) ++ List.replicate (3 * n) '.', commas,
      (s.dropWhile (· == '@')).dropWhile (· != ':'), ?_, ?_, ?_, hcommas, ?_⟩
    · rw [← hwritten, written, List.takeWhile_append_dropWhile, List.takeWhile_append_dropWhile]
    · intro c hc
      simpa using List.mem_takeWhile_imp hc
    · intro c hc hmark
      rcases List.mem_append.1 hc with hc | hc
      · simp only [List.mem_cons, List.not_mem_nil, or_false] at hmark
        rcases hmark with rfl | rfl | rfl
        · exact h.at_notMem hc
        · exact h.colon_notMem hc
        · exact h.comma_notMem hc
      · rw [List.eq_of_mem_replicate hc] at hmark
        exact absurd hmark (by decide)
    · intro c hc
      have hnot := List.head?_dropWhile_not (· != ':') (s.dropWhile (· == '@'))
      rw [Option.mem_def.1 hc] at hnot
      simpa using hnot
  · rintro ⟨ats, name, commas, tail, rfl, hats, hname, hcommas, htail⟩
    rw [written_of_parts hats hname hcommas htail]
    have hcomma : ',' ∉ name := fun hmem => hname ',' hmem (by simp)
    have hsub := (bareName_append hcomma hcommas).subset
    exact ⟨fun hmem => hname '@' (hsub hmem) (by simp), fun hmem => hname ':' (hsub hmem) (by simp),
      fun hmem => hcomma (hsub hmem), not_isSuffix_bareName _⟩

/-! ## Tokens and records -/

end Mixin

/-- A token with the name of a parameter. -/
def Token.isParam (t : Token) : Bool :=
  match t.kind with
  | .param _ => true
  | _ => false

/-- The record `p` was begun by the token `t`. -/
inductive Param.BeginsWith (p : Param) (t : Token) : Prop where
  | named {rest : Bool} (kind : t.kind = .param rest) (start : p.span.first = t.span.first)
      (variadic : p.variadic = rest) (name : p.name = Mixin.bareName (Mixin.written t.text))
  /-- A bare `...`. -/
  | bare (kind : t.kind = .word) (text : t.text = Mixin.dots) (start : p.span.first = t.span.first)
      (variadic : p.variadic = true) (name : p.name = [])

/-- What is read after the first token of a parameter changes neither its name nor its start. -/
theorem Param.BeginsWith.congr {p q : Param} {t : Token} (h : p.BeginsWith t)
    (hname : q.name = p.name) (hvariadic : q.variadic = p.variadic)
    (hstart : q.span.first = p.span.first) : q.BeginsWith t := by
  cases h with
  | named kind start variadic name =>
    exact .named kind (hstart.trans start) (hvariadic.trans variadic) (hname.trans name)
  | bare kind text start variadic name =>
    exact .bare kind text (hstart.trans start) (hvariadic.trans variadic) (hname.trans name)

theorem Param.BeginsWith.extend {p : Param} {t : Token} (h : p.BeginsWith t) (u : Token) :
    (Mixin.extend p u).BeginsWith t := by
  unfold Mixin.extend
  split
  · exact h.congr rfl rfl rfl
  · exact h

namespace Mixin

/-- The records `ps` were begun by the token `begun`, if there is one, and then by tokens of `ts`, one
after another: by all that have the name of a parameter, and by bare dots. -/
def HeadedBy (begun : Option Token) (ts : List Token) (ps : List Param) : Prop :=
  ∃ heads, heads.Sublist ts ∧ heads.filter Token.isParam = ts.filter Token.isParam ∧
    List.Forall₂ Param.BeginsWith ps (begun.toList ++ heads)

section

variable {current : Option Param} {begun : Option Token} {t : Token} {ts : List Token}
  {ps : List Param}

theorem forall₂_finish (h : Option.Rel Param.BeginsWith current begun) :
    List.Forall₂ Param.BeginsWith (current.map finish).toList begun.toList := by
  cases h with
  | none => exact .nil
  | some h => exact .cons (h.congr rfl rfl rfl) .nil

/-- A token that begins no parameter. -/
theorem HeadedBy.skip (h : HeadedBy begun ts ps) (ht : t.isParam = false) :
    HeadedBy begun (t :: ts) ps := by
  obtain ⟨heads, hsub, hfilter, hforall⟩ := h
  refine ⟨heads, hsub.cons t, ?_, hforall⟩
  rw [hfilter, List.filter_cons_of_neg (by simp [ht])]

/-- A token that ends the parameter which is being read. -/
theorem HeadedBy.stop (h : HeadedBy none ts ps) (hcurrent : Option.Rel Param.BeginsWith current begun)
    (ht : t.isParam = false) : HeadedBy begun (t :: ts) ((current.map finish).toList ++ ps) := by
  obtain ⟨heads, hsub, hfilter, hforall⟩ := h.skip ht
  exact ⟨heads, hsub, hfilter, List.rel_append (forall₂_finish hcurrent) hforall⟩

/-- A token that begins the next parameter. -/
theorem HeadedBy.start (h : HeadedBy (some t) ts ps)
    (hcurrent : Option.Rel Param.BeginsWith current begun) :
    HeadedBy begun (t :: ts) ((current.map finish).toList ++ ps) := by
  obtain ⟨heads, hsub, hfilter, hforall⟩ := h
  refine ⟨t :: heads, hsub.cons_cons t, ?_, List.rel_append (forall₂_finish hcurrent) hforall⟩
  rw [List.filter_cons, List.filter_cons, hfilter]

/-- **One record for each token that begins a parameter**, in the order of the tokens. -/
theorem headedBy_paramsFrom (h : Option.Rel Param.BeginsWith current begun) (leading : Text)
    (ts : List Token) : HeadedBy begun ts (paramsFrom current leading ts) := by
  fun_induction paramsFrom current leading ts generalizing begun with
  | case1 current leading =>
    exact ⟨[], List.Sublist.refl _, rfl, by simpa using forall₂_finish h⟩
  | case2 current leading t ts rest kind ih =>
    exact (ih (.some (.named kind rfl rfl (name_named leading t rest)))).start h
  | case3 current leading t ts kind ih => exact (ih .none).stop h (by simp [Token.isParam, kind])
  | case4 leading t ts p kind ih =>
    cases h with
    | some hp => exact (ih (.some (hp.congr rfl rfl rfl))).skip (by simp [Token.isParam, kind])
  | case5 leading t ts kind ih => exact (ih h).skip (by simp [Token.isParam, kind])
  | case6 leading t ts p param semicolon space ih =>
    cases h with
    | some hp => exact (ih (.some (hp.extend t))).skip (by simp [Token.isParam])
  | case7 leading t ts kind text ih =>
    exact (ih (.some (.bare kind (eq_of_beq text) rfl rfl rfl))).start h
  | case8 leading t ts kind text ih => exact (ih h).skip (by simp [Token.isParam, kind])
  | case9 leading t ts param semicolon space word ih => exact (ih h).skip (by simp [Token.isParam])

/-- What holds of the records and of the tokens that began them alike. -/
theorem forall_iff_of_forall₂ {P : Param → Prop} {Q : Token → Prop} {heads : List Token}
    (hforall : List.Forall₂ Param.BeginsWith ps heads)
    (h : ∀ p t, p.BeginsWith t → (P p ↔ Q t)) : (∀ p ∈ ps, P p) ↔ ∀ t ∈ heads, Q t := by
  induction hforall with
  | nil => simp
  | cons head tail ih => rw [List.forall_mem_cons, List.forall_mem_cons, h _ _ head, ih]

end

end Mixin

/-- In the name of a parameter there is no colon, no `@` sign stands at its start and no three dots at
its end. -/
theorem Param.BeginsWith.name_marks {p : Param} {t : Token} (h : p.BeginsWith t) :
    ':' ∉ p.name ∧ p.name.head? ≠ some '@' ∧ ¬ Mixin.dots <:+ p.name := by
  cases h with
  | named kind start variadic name =>
    have hfront := Mixin.bareName_isPrefix (Mixin.written t.text)
    rw [name]
    refine ⟨fun hmem => Mixin.colon_notMem_written _ (hfront.subset hmem), fun hhead => ?_,
      Mixin.not_isSuffix_bareName _⟩
    obtain ⟨r, hr⟩ := List.head?_eq_some_iff.1 hhead
    obtain ⟨more, hmore⟩ := hfront
    rw [hr] at hmore
    exact Mixin.head?_written_ne t.text (by rw [← hmore]; rfl)
  | bare kind text start variadic name =>
    rw [name]
    decide

/-- A parameter that a token with a name begins has a clean name exactly if the token writes a single
parameter. Bare dots have no name at all. -/
theorem Param.BeginsWith.clean_iff {p : Param} {t : Token} (h : p.BeginsWith t) :
    Mixin.Clean p.name ↔ (t.isParam = true → Mixin.Single t.text) := by
  cases h with
  | named kind start variadic name => simp [name, Mixin.clean_bareName_iff, Token.isParam, kind]
  | bare kind text start variadic name =>
    have hclean : Mixin.Clean [] := ⟨by simp, by simp, by simp, by decide⟩
    simp [name, hclean, Token.isParam, kind]

/-! ## Sheets -/

namespace Sheet

variable {s : Text} {ts : List Token} {sheet : Sheet}

/-- The parameters of a block that defines a mixin, or those that the registry has under a name. -/
def HasSignature (sheet : Sheet) (ps : List Param) : Prop :=
  (∃ b ∈ sheet.blocks, b.params = some ps) ∨
    ∃ name m, sheet.mixins.get? name = some m ∧ m.params = ps

/-- Every signature is that of a block. -/
theorem HasSignature.exists_block {ps : List Param} (h : sheet.HasSignature ps)
    (hlex : Token.Lexed .start .start s ts) (hsheet : ofTokens ts = .ok sheet) :
    ∃ b ∈ sheet.blocks, b.params = some ps := by
  rcases h with h | ⟨name, m, hget, rfl⟩
  · exact h
  obtain ⟨d, htracked, hmixins, hopened, -⟩ := exists_tracked hlex hsheet
  rw [← hmixins, htracked.registry, hopened, Mixin.latest_map_opened] at hget
  obtain ⟨b, hlast, rfl⟩ := Option.map_eq_some_iff.1 hget
  obtain ⟨hb, hdefines⟩ := List.mem_filter.1 (List.mem_of_getLast? hlast)
  rw [Bool.and_eq_true, Option.isSome_iff_exists] at hdefines
  obtain ⟨⟨ps, hps⟩, -⟩ := hdefines
  exact ⟨b, hb, by rw [hps]; rfl⟩

/-- The parameters of a block are those between the parentheses of its selector. -/
theorem exists_inner (hlex : Token.Lexed .start .start s ts) (hsheet : ofTokens ts = .ok sheet)
    {b : Block} (hb : b ∈ sheet.blocks) {ps : List Param} (hps : b.params = some ps) :
    ∃ inner, inner <:+: ts ∧ ps = Mixin.paramList inner := by
  obtain ⟨d, htracked, -, hopened, -⟩ := exists_tracked hlex hsheet
  have hmem : b.opened ∈ d.opened := hopened ▸ List.mem_map_of_mem hb
  have hspelled := (htracked.blocks _ hmem).1
  obtain ⟨inner, hinner, rfl⟩ := hspelled.exists_inner ps hps
  refine ⟨inner, ?_, rfl⟩
  obtain ⟨us, -, hus⟩ := Mixin.append_afterName (b.opened.tokens ts)
  have hafter : Mixin.afterName (b.opened.tokens ts) <:+: b.opened.tokens ts :=
    ⟨us, [], by rw [List.append_nil, hus]⟩
  exact ((Mixin.isPrefix_of_inParens? hinner).isInfix.trans
    (List.tail_suffix _).isInfix).trans (hafter.trans hspelled.isInfix)

/-- **The names of parameters.** The parameters of a definition, in the sheet or in its registry, come
from the tokens between two parentheses. There is one for each token with the name of a parameter and
for some bare dots, in the order of the tokens. No name has a colon, an `@` sign at its start or three
dots at its end. All names are clean, without any `@` sign or comma, exactly if each of the tokens
writes a single parameter. -/
theorem params_of_tokenize (hts : Token.tokenize s = .ok ts) (hsheet : ofTokens ts = .ok sheet)
    {ps : List Param} (hps : sheet.HasSignature ps) :
    ∃ inner heads, inner <:+: ts ∧ heads.Sublist inner ∧
      heads.filter Token.isParam = inner.filter Token.isParam ∧
      List.Forall₂ Param.BeginsWith ps heads ∧
      (∀ p ∈ ps, ':' ∉ p.name ∧ p.name.head? ≠ some '@' ∧ ¬ Mixin.dots <:+ p.name) ∧
      ((∀ p ∈ ps, Mixin.Clean p.name) ↔
        ∀ t ∈ inner, t.isParam = true → Mixin.Single t.text) := by
  have hlex := Token.lexed_of_tokensFrom hts
  obtain ⟨b, hb, hparams⟩ := hps.exists_block hlex hsheet
  obtain ⟨inner, hinner, rfl⟩ := exists_inner hlex hsheet hb hparams
  obtain ⟨heads, hsub, hfilter, hforall⟩ := Mixin.headedBy_paramsFrom .none [] inner
  change List.Forall₂ Param.BeginsWith (Mixin.paramList inner) heads at hforall
  refine ⟨inner, heads, hinner, hsub, hfilter, hforall, ?_, ?_⟩
  · refine (Mixin.forall_iff_of_forall₂ (Q := fun _ => True) hforall ?_).2 fun _ _ => trivial
    exact fun p t h => iff_true_intro h.name_marks
  · have hmem : ∀ t, t.isParam = true → (t ∈ heads ↔ t ∈ inner) := by
      intro t ht
      have hboth : t ∈ heads.filter Token.isParam ↔ t ∈ inner.filter Token.isParam := by rw [hfilter]
      simpa [List.mem_filter, ht] using hboth
    rw [Mixin.forall_iff_of_forall₂ hforall fun p t h => h.clean_iff]
    exact ⟨fun h t ht hparam => h t ((hmem t hparam).2 ht) hparam,
      fun h t ht hparam => h t ((hmem t hparam).1 ht) hparam⟩

theorem params_of_tokenize_rest :
    ∃ ts sheet ps, Token.tokenize ".m(@a:1, @b...)\x7b\x7d".toList = .ok ts ∧
      ofTokens ts = .ok sheet ∧ sheet.HasSignature ps ∧
      ps.map (·.name) = [['a'], ['b']] ∧ ∀ p ∈ ps, Mixin.Clean p.name := by
  obtain ⟨ts, sheet, hts, hsheet, heval⟩ := exists_of_eval
    (s := ".m(@a:1, @b...)\x7b\x7d".toList)
    (f := fun ts sheet => ((ts.filter Token.isParam).map (·.text),
      sheet.blocks.map fun b => b.params.map (·.map (·.name))))
    (a := (["@a:1,".toList, "@b...".toList], [some [['a'], ['b']]])) (by decide +kernel)
  obtain ⟨htexts, hnames⟩ := Prod.mk.inj heval
  obtain ⟨b, hb, hparams⟩ := List.mem_map.1 (hnames ▸ List.mem_singleton_self _)
  obtain ⟨ps, hps, hname⟩ := Option.map_eq_some_iff.1 hparams
  have hsignature : sheet.HasSignature ps := .inl ⟨b, hb, hps⟩
  obtain ⟨inner, -, hinner, -, -, -, -, hiff⟩ := params_of_tokenize hts hsheet hsignature
  refine ⟨ts, sheet, ps, hts, hsheet, hsignature, hname, hiff.2 fun t ht hparam => ?_⟩
  have hmem : t.text ∈ (ts.filter Token.isParam).map (·.text) :=
    List.mem_map_of_mem (List.mem_filter.2 ⟨hinner.subset ht, hparam⟩)
  rw [htexts, List.mem_cons, List.mem_singleton] at hmem
  rcases hmem with htext | htext
  · exact ⟨['@'], ['a'], [], [':', '1', ','], htext, by simp, by simp, by simp, by simp⟩
  · exact ⟨['@'], ['b', '.', '.', '.'], [], [], htext, by simp, by simp, by simp, by simp⟩

/-- Two parameters that are written without a blank between them. -/
def fused : Param where
  name := "a,@b".toList
  variadic := false
  fallback := none
  before := []
  after := []
  span := ⟨⟨1, 4⟩, ⟨1, 8⟩⟩

/-- The name of a parameter can hold a comma and an `@` sign, in the sheet and in its registry. -/
theorem params_fused :
    ∃ ts sheet b m, Token.tokenize ".m(@a,@b)\x7b\x7d".toList = .ok ts ∧
      ofTokens ts = .ok sheet ∧ b ∈ sheet.blocks ∧ b.params = some [fused] ∧
      sheet.mixins.get? ".m".toList = some m ∧ m.params = [fused] ∧ ¬ Mixin.Clean fused.name := by
  obtain ⟨ts, sheet, hts, hsheet, heval⟩ := exists_of_eval (s := ".m(@a,@b)\x7b\x7d".toList)
    (f := fun _ sheet => (sheet.blocks.map (·.params), sheet.mixins.get? ".m".toList))
    (a := ([some [fused]], some ⟨[fused], ⟨1, 1⟩⟩)) (by decide +kernel)
  obtain ⟨hblocks, hregistry⟩ := Prod.mk.inj heval
  obtain ⟨b, hb, hparams⟩ := List.mem_map.1 (hblocks ▸ List.mem_singleton_self _)
  refine ⟨ts, sheet, b, _, hts, hsheet, hb, hparams, hregistry, rfl, fun hclean => ?_⟩
  exact hclean.comma_notMem (by decide)

end Sheet

end LessStyle
