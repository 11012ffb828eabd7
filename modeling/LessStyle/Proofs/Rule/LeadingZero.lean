import LessStyle.Proofs.Rule.Alias
import LessStyle.Proofs.Rule.Candidates
import LessStyle.Proofs.Sheet.Columns
import LessStyle.Proofs.Sheet.Order
import LessStyle.Proofs.Value.Numeral
import Mathlib.Data.List.Forall2

/-!
# Decimals written alike

The first decimal of a file sets the form of all others. A decimal is *zero-led* if a digit stands
before its point (`ZeroLed`). The rule looks only at the first characters of it, and takes a zero behind
a plus sign and a zero behind another for none (`Overlooked`, `hasLeadingZero_iff`). So it separates the
decimals as it should exactly if it overlooks all of them or none (`deviating_eq_iff`).

The decimals of a sheet come in the order of the document, at distinct places (`pairwise_decimals`), so
a record tells the decimal that it is on.
-/

namespace LessStyle.Rule

open Text

variable {p q : Part}

/-! ## Places -/

/-- Where a decimal is reported. -/
def placeOf (x : Declaration × Part) : Position := ⟨x.1.span.first.line, x.1.columnAt x.2.offset⟩

/-- Columns grow with offsets. -/
theorem columnAt_lt {d : Declaration} (hp : p.StandsIn 0 d.value) (hq : q.StandsIn 0 d.value)
    (hlt : p.offset < q.offset) : d.columnAt p.offset < d.columnAt q.offset := by
  obtain ⟨front, rest, hvalue, hoffset⟩ := hp
  obtain ⟨front', rest', hvalue', hoffset'⟩ := hq
  rw [Nat.zero_add] at hoffset hoffset'
  rw [hoffset, hoffset', Declaration.columnAt_byteLength hvalue,
    Declaration.columnAt_byteLength hvalue']
  refine Nat.add_lt_add_left (Nat.lt_of_not_le fun hle => ?_) _
  obtain ⟨more, rfl⟩ := List.prefix_of_prefix_length_le ⟨_, hvalue'.symm⟩ ⟨_, hvalue.symm⟩ hle
  rw [byteLength_append] at hoffset
  omega

/-- A candidate is reported before the end of its declaration. -/
theorem placeOf_lt {s : Text} {ts : List Token} {sheet : Sheet} {d : Declaration}
    (hlex : Token.Lexed .start .start s ts) (hsheet : Sheet.ofTokens ts = .ok sheet)
    (hd : d ∈ sheet.declarations) (hne : p.text ≠ []) (hp : p.StandsIn 0 d.value) :
    placeOf (d, p) < d.span.first.advance d.written := by
  obtain ⟨depth, hn⟩ := Sheet.exists_mem_walk_of_mem_declarations hd
  obtain ⟨before, after, -, hfirst⟩ := Sheet.standsIn hlex hsheet _ hn
  have hlen := Sheet.length_value_le hsheet hd
  obtain ⟨front, rest, hvalue, hoffset⟩ := hp
  rw [Nat.zero_add] at hoffset
  rw [placeOf, hoffset, Declaration.columnAt_byteLength hvalue, Declaration.valueColumn,
    show d.span.first = Position.after before from hfirst, ← Position.after_append,
    Position.after_eq, Position.after_eq, Position.lt_iff, List.count_append, lastLine_append]
  by_cases hbreak : '\n' ∈ d.written
  · have := List.count_pos_iff.2 hbreak
    exact .inl (by dsimp only; omega)
  · have hpos := List.length_pos_iff.2 hne
    refine .inr ⟨by rw [List.count_eq_zero.2 hbreak]; rfl, ?_⟩
    rw [if_neg hbreak, Declaration.written]
    simp only [hvalue, List.length_append] at hlen ⊢
    omega

theorem first_le_placeOf {d : Declaration} (hp : p.StandsIn 0 d.value) :
    d.span.first ≤ placeOf (d, p) := by
  obtain ⟨front, rest, hvalue, hoffset⟩ := hp
  rw [Nat.zero_add] at hoffset
  rw [placeOf, hoffset, Declaration.columnAt_byteLength hvalue, Declaration.valueColumn]
  exact Position.le_iff.2 (.inr ⟨rfl, by dsimp only; omega⟩)

/-- **The decimals come in the order of their places.** -/
theorem pairwise_decimals {s : Text} {ts : List Token} {sheet : Sheet}
    (hlex : Token.Lexed .start .start s ts) (hsheet : Sheet.ofTokens ts = .ok sheet) :
    (decimals sheet).Pairwise fun x y => placeOf x < placeOf y := by
  rw [decimals, List.pairwise_flatMap]
  constructor
  · intro d hd
    rw [List.pairwise_map]
    refine ((pairwise_candidates d.value).filter isDecimal).imp_of_mem ?_
    intro p q hp hq hlt
    have hp := (standsIn_of_mem_candidates (List.mem_filter.1 hp).1).2
    have hq := (standsIn_of_mem_candidates (List.mem_filter.1 hq).1).2
    have hoffset : p.offset < q.offset := by omega
    exact Position.lt_iff.2 (.inr ⟨rfl, columnAt_lt hp hq hoffset⟩)
  · refine (Sheet.pairwise_written hlex hsheet).imp_of_mem ?_
    intro d d' hd hd' hle x hx y hy
    obtain ⟨p, hp, rfl⟩ := List.mem_map.1 hx
    obtain ⟨q, hq, rfl⟩ := List.mem_map.1 hy
    obtain ⟨htrimmed, hstands⟩ := standsIn_of_mem_candidates (List.mem_filter.1 hp).1
    refine (placeOf_lt hlex hsheet hd htrimmed.ne_nil hstands).trans_le (hle.trans ?_)
    exact first_le_placeOf (standsIn_of_mem_candidates (List.mem_filter.1 hq).1).2

/-! ## Forms -/

/-- A digit stands before the point, behind a sign or not. -/
def ZeroLed (s : Text) : Prop :=
  ∃ sign whole rest, Numeral.WrittenAs s sign whole rest ∧ whole ≠ []

/-- A digit stands before the point, but behind a plus sign or another digit. -/
def Overlooked (s : Text) : Prop :=
  ∃ sign whole rest, Numeral.WrittenAs s sign whole rest ∧ whole ≠ [] ∧
    (sign = ['+'] ∨ 1 < whole.length)

theorem zeroLed_iff (s : Text) :
    ZeroLed s ↔ (Numeral.digits (Numeral.sign? s).2).1 ≠ [] ∧
      (Numeral.digits (Numeral.sign? s).2).2.head? = some '.' := by
  constructor
  · rintro ⟨sign, whole, rest, hwritten, hne⟩
    rw [hwritten.read_eq.2]
    exact ⟨hne, rfl⟩
  · rintro ⟨hne, hpoint⟩
    obtain ⟨hs, hsign⟩ := Numeral.eq_of_sign? s
    obtain ⟨rest, hrest⟩ := List.head?_eq_some_iff.1 hpoint
    refine ⟨_, _, rest, ⟨?_, hsign, fun c hc => List.all_eq_true.1 List.all_takeWhile c hc⟩, hne⟩
    rw [← hrest]
    exact hs.trans (congrArg _ List.takeWhile_append_dropWhile.symm)

theorem overlooked_iff (s : Text) :
    Overlooked s ↔ ZeroLed s ∧ ((Numeral.sign? s).1.toList = ['+'] ∨
      1 < (Numeral.digits (Numeral.sign? s).2).1.length) := by
  constructor
  · rintro ⟨sign, whole, rest, hwritten, hne, hbehind⟩
    rw [hwritten.read_eq.1, hwritten.read_eq.2]
    exact ⟨⟨sign, whole, rest, hwritten, hne⟩, hbehind⟩
  · rintro ⟨⟨sign, whole, rest, hwritten, hne⟩, hbehind⟩
    rw [hwritten.read_eq.1, hwritten.read_eq.2] at hbehind
    exact ⟨sign, whole, rest, hwritten, hne, hbehind⟩

instance : DecidablePred ZeroLed := fun s => decidable_of_iff' _ (zeroLed_iff s)

instance : DecidablePred Overlooked := fun s => decidable_of_iff' _ (overlooked_iff s)

section

variable {s sign whole rest : Text} (h : Numeral.WrittenAs s sign whole rest)

include h

theorem zeroLed_of_writtenAs : ZeroLed s ↔ whole ≠ [] := by
  rw [zeroLed_iff, h.read_eq.2]
  simp

theorem overlooked_of_writtenAs :
    Overlooked s ↔ whole ≠ [] ∧ (sign = ['+'] ∨ 1 < whole.length) := by
  rw [overlooked_iff, zeroLed_of_writtenAs h, h.read_eq.1, h.read_eq.2]

/-- Before the point there are only zeros. -/
theorem hasLeadingZero_of_writtenAs (hzeros : ∀ c ∈ whole, c = '0') :
    hasLeadingZero s = true ↔ whole.length = 1 ∧ sign ≠ ['+'] := by
  obtain ⟨rfl, hsign, -⟩ := h
  simp only [List.mem_cons, List.not_mem_nil, or_false] at hsign
  unfold hasLeadingZero startsWith
  match whole, hzeros with
  | [], _ => rcases hsign with rfl | rfl | rfl <;> simp
  | [c], hzeros =>
    obtain rfl := hzeros c (by simp)
    rcases hsign with rfl | rfl | rfl <;> simp
  | c :: d :: whole, hzeros =>
    obtain rfl := hzeros c (by simp)
    obtain rfl := hzeros d (by simp)
    rcases hsign with rfl | rfl | rfl <;> simp

end

/-- The number at the start of the text has an exponent. -/
def UsesExponent (s : Text) : Prop := ∃ n ∈ Numeral.read? s, n.exponent ≠ none

instance : DecidablePred UsesExponent := fun s =>
  inferInstanceAs (Decidable (∃ n ∈ Numeral.read? s, n.exponent ≠ none))

/-- **The form that the rule sees**: the digit before the point, unless it is overlooked. -/
theorem hasLeadingZero_iff (hdecimal : isDecimal p = true) (htrimmed : p.Trimmed)
    (hexponent : ¬ UsesExponent p.text) :
    hasLeadingZero p.text = true ↔ ZeroLed p.text ∧ ¬ Overlooked p.text := by
  unfold isDecimal leadingNumber? at hdecimal
  rw [htrimmed.trimStart] at hdecimal
  cases hread : Numeral.read? p.text with
  | none =>
    rw [hread] at hdecimal
    cases hdecimal
  | some n =>
    rw [hread] at hdecimal
    simp only [Option.map_some, Bool.and_eq_true, Bool.not_eq_true'] at hdecimal
    have hnone : n.exponent = none := by
      by_contra hne
      exact hexponent ⟨n, hread, hne⟩
    obtain ⟨rest, hwritten, hzeros⟩ :=
      Numeral.writtenAs_of_isFraction hread hnone hdecimal.1 hdecimal.2
    rw [hasLeadingZero_of_writtenAs hwritten hzeros, zeroLed_of_writtenAs hwritten,
      overlooked_of_writtenAs hwritten, ← List.length_pos_iff]
    constructor
    · rintro ⟨hone, hplus⟩
      exact ⟨by omega, fun h => h.2.elim hplus (by omega)⟩
    · rintro ⟨hpos, hseen⟩
      have hlen : ¬ 1 < n.whole.length := fun hlen => hseen ⟨hpos, .inr hlen⟩
      exact ⟨by omega, fun hplus => hseen ⟨hpos, .inl hplus⟩⟩

/-! ## The convention -/

/-- The decimals whose form is not that of the first one. -/
def deviating (led : Text → Bool) : List (Declaration × Part) → List (Declaration × Part)
  | [] => []
  | x :: xs => (x :: xs).filter fun y => led y.2.text != led x.2.text

theorem deviating_sublist (led : Text → Bool) (xs : List (Declaration × Part)) :
    (deviating led xs).Sublist xs := by
  cases xs with
  | nil => exact .slnil
  | cons x xs => exact List.filter_sublist

/-- The same decimals deviate by two forms exactly if each of them agrees with the first one by both
or by neither. -/
theorem deviating_cons_eq_iff {led led' : Text → Bool} {x : Declaration × Part}
    {xs : List (Declaration × Part)} :
    deviating led (x :: xs) = deviating led' (x :: xs) ↔
      ∀ y ∈ x :: xs, ((led y.2.text = true ↔ led x.2.text = true) ↔
        (led' y.2.text = true ↔ led' x.2.text = true)) := by
  simp only [← Bool.eq_iff_iff]
  constructor
  · intro heq y hy
    have hmem : y ∈ deviating led (x :: xs) ↔ y ∈ deviating led' (x :: xs) := by rw [heq]
    simp only [deviating, List.mem_filter, hy, true_and, bne_iff_ne] at hmem
    exact not_iff_not.1 hmem
  · intro hagree
    rw [deviating, deviating]
    refine List.filter_congr fun y hy => ?_
    rw [Bool.eq_iff_iff, bne_iff_ne, bne_iff_ne]
    exact not_congr (hagree y hy)

/-- **Overlooking all or none.** The decimals that deviate for the rule are those that deviate exactly
if it overlooks all of them or none. -/
theorem deviating_eq_iff {xs : List (Declaration × Part)}
    (h : ∀ x ∈ xs, hasLeadingZero x.2.text = true ↔ ZeroLed x.2.text ∧ ¬ Overlooked x.2.text) :
    deviating hasLeadingZero xs = deviating (fun s => decide (ZeroLed s)) xs ↔
      (∀ x ∈ xs, Overlooked x.2.text) ∨ ∀ x ∈ xs, ¬ Overlooked x.2.text := by
  cases xs with
  | nil => simp [deviating]
  | cons x xs =>
    have hx := h x List.mem_cons_self
    simp only [deviating_cons_eq_iff, decide_eq_true_eq]
    have hled : ∀ y : Declaration × Part, Overlooked y.2.text → ZeroLed y.2.text :=
      fun y hy => ((overlooked_iff _).1 hy).1
    constructor
    · intro hagree
      by_cases hfirst : Overlooked x.2.text
      · refine .inl fun y hy => ?_
        have := h y hy
        have := hagree y hy
        grind
      · refine .inr fun y hy => ?_
        have := h y hy
        have := hagree y hy
        grind
    · rintro (hall | hnone) y hy
      · have := h y hy
        grind
      · have := h y hy
        grind

/-- The record on a decimal: where it stands, and that the file uses the other form. -/
structure ShowsDecimal (x : Declaration × Part) (d : Diagnostic) : Prop where
  line : d.line = (placeOf x).line
  column : d.column = some (placeOf x).column
  message : d.message = leadingZeroMessage !hasLeadingZero x.2.text

/-- There is one record for each decimal that deviates for the rule. -/
theorem forall₂_leadingZero (page : Page) (sheet : Sheet) (rule : Text) :
    List.Forall₂ ShowsDecimal (deviating hasLeadingZero (decimals sheet))
      ((leadingZero page sheet).map (·.toDiagnostic rule)) := by
  unfold leadingZero
  cases decimals sheet with
  | nil => exact .nil
  | cons x xs =>
    obtain ⟨d, p⟩ := x
    dsimp only
    rw [List.map_map, List.forall₂_map_right_iff]
    refine List.forall₂_same.2 fun y hy => ⟨rfl, rfl, ?_⟩
    have hform : hasLeadingZero p.text = !hasLeadingZero y.2.text :=
      Bool.eq_not.2 (Ne.symm (bne_iff_ne.1 (List.mem_filter.1 hy).2))
    simp only [Function.comp_apply, Finding.toDiagnostic, Page.reportColumns, Page.plain, hform]

/-- Records on two selections of decimals at distinct places are on the same selection. -/
theorem eq_of_forall₂_showsDecimal {xs ys zs : List (Declaration × Part)} {ds : List Diagnostic}
    (hxs : xs.Pairwise fun x y => placeOf x < placeOf y) (hys : ys.Sublist xs) (hzs : zs.Sublist xs)
    (hy : List.Forall₂ ShowsDecimal ys ds) (hz : List.Forall₂ ShowsDecimal zs ds) : ys = zs := by
  have hnodup : (xs.map placeOf).Nodup := List.pairwise_map.2 (hxs.imp fun hlt => hlt.ne)
  have hunique : Relator.LeftUnique fun (x : Declaration × Part) d => x ∈ xs ∧ ShowsDecimal x d := by
    rintro x y d ⟨hx, hshow⟩ ⟨hy, hshow'⟩
    refine List.inj_on_of_nodup_map hnodup hx hy ?_
    have hline := hshow.line.symm.trans hshow'.line
    have hcolumn := Option.some.inj (hshow.column.symm.trans hshow'.column)
    cases hplace : placeOf x
    cases hplace' : placeOf y
    simp_all
  exact List.left_unique_forall₂' hunique
    ((List.forall₂_and_left _ _).2 ⟨fun y hy => hys.subset hy, hy⟩)
    ((List.forall₂_and_left _ _).2 ⟨fun z hz => hzs.subset hz, hz⟩)

/-- **Decimals are compared with the first one as far as the rule sees them.** Let a file be read from
the text `s`, the rule be enabled, and no decimal have an exponent. The decimals come in the order of
their places. There is one record for each whose form deviates for the rule, in their order, and these
are the decimals that deviate from the first one exactly if the rule overlooks all decimals or none. -/
theorem leadingZero_of_read {s : Text} {file : File} {config : Config} {setting : Setting}
    (hread : File.read s = .ok file)
    (henabled : config.enabled? "leading-zero".toList = some setting)
    (hexponent : ∀ x ∈ decimals file.sheet, ¬ UsesExponent x.2.text) :
    (decimals file.sheet).Pairwise (fun x y => placeOf x < placeOf y) ∧
      List.Forall₂ ShowsDecimal (deviating hasLeadingZero (decimals file.sheet))
        ((runAll config file).filter (·.rule = "leading-zero".toList)) ∧
      (List.Forall₂ ShowsDecimal (deviating (fun s => decide (ZeroLed s)) (decimals file.sheet))
          ((runAll config file).filter (·.rule = "leading-zero".toList)) ↔
        (∀ x ∈ decimals file.sheet, Overlooked x.2.text) ∨
          ∀ x ∈ decimals file.sheet, ¬ Overlooked x.2.text) := by
  obtain ⟨-, hts, hsheet⟩ := File.eq_of_read hread
  have hplaces := pairwise_decimals (Token.lexed_of_tokensFrom hts) hsheet
  have hmem : onSheet "leading-zero" leadingZero ∈ all := by
    simp [all]
  have hforms : ∀ x ∈ decimals file.sheet,
      hasLeadingZero x.2.text = true ↔ ZeroLed x.2.text ∧ ¬ Overlooked x.2.text := by
    intro x hx
    obtain ⟨d, -, hd⟩ := List.mem_flatMap.1 hx
    obtain ⟨p, hp, rfl⟩ := List.mem_map.1 hd
    obtain ⟨hp, hdecimal⟩ := List.mem_filter.1 hp
    exact hasLeadingZero_iff hdecimal (standsIn_of_mem_candidates hp).1 (hexponent _ hx)
  rw [filter_runAll_onSheet hmem henabled]
  have hrecords := forall₂_leadingZero file.page file.sheet "leading-zero".toList
  refine ⟨hplaces, hrecords, ?_⟩
  rw [← deviating_eq_iff hforms]
  constructor
  · exact eq_of_forall₂_showsDecimal hplaces (deviating_sublist _ _) (deviating_sublist _ _) hrecords
  · intro heq
    rwa [← heq]

/-- Three decimals, one of them without its zero. -/
def mixedForms : Text := "a: 0.5 .5 f(-0.5);".toList

theorem leadingZero_of_read_mixed :
    ∃ file, File.read mixedForms = .ok file ∧
      (Config.only "leading-zero".toList (.flag true)).enabled? "leading-zero".toList =
        some (.flag true) ∧
      (∀ x ∈ decimals file.sheet, ¬ UsesExponent x.2.text) ∧
      (decimals file.sheet).map placeOf = [⟨1, 4⟩, ⟨1, 8⟩, ⟨1, 13⟩] ∧
      ((runAll (Config.only "leading-zero".toList (.flag true)) file).filter
        (·.rule = "leading-zero".toList)).map (fun d => (d.line, d.column)) = [(1, some 8)] ∧
      List.Forall₂ ShowsDecimal (deviating (fun s => decide (ZeroLed s)) (decimals file.sheet))
        ((runAll (Config.only "leading-zero".toList (.flag true)) file).filter
          (·.rule = "leading-zero".toList)) := by
  obtain ⟨file, hread, hfile⟩ := File.exists_of_eval (s := mixedForms)
    (f := fun file => ((decimals file.sheet).map placeOf,
      ((runAll (Config.only "leading-zero".toList (.flag true)) file).filter
        (·.rule = "leading-zero".toList)).map fun d => (d.line, d.column),
      decide (∀ x ∈ decimals file.sheet, ¬ UsesExponent x.2.text ∧ ¬ Overlooked x.2.text)))
    (a := ([⟨1, 4⟩, ⟨1, 8⟩, ⟨1, 13⟩], [(1, some 8)], true)) (by decide +kernel)
  simp only [Prod.mk.injEq, decide_eq_true_eq] at hfile
  obtain ⟨hplaces, hrecords, hforms⟩ := hfile
  have henabled : (Config.only "leading-zero".toList (.flag true)).enabled?
      "leading-zero".toList = some (.flag true) := by
    decide
  have hexponent := fun x hx => (hforms x hx).1
  obtain ⟨-, -, hiff⟩ := leadingZero_of_read hread henabled hexponent
  exact ⟨file, hread, henabled, hexponent, hplaces, hrecords,
    hiff.2 (.inr fun x hx => (hforms x hx).2)⟩

/-- A decimal with its zero behind a plus sign. -/
def signedForm : Text := "a: 0.5 +0.5;".toList

/-- All decimals are zero-led, and there is a record. -/
theorem exists_record_on_signedForm :
    ∃ file, File.read signedForm = .ok file ∧
      (∀ x ∈ decimals file.sheet, ¬ UsesExponent x.2.text ∧ ZeroLed x.2.text) ∧
      ∃ d ∈ runAll (Config.only "leading-zero".toList (.flag true)) file,
        d.rule = "leading-zero".toList := by
  obtain ⟨file, hread, hfile⟩ := File.exists_of_eval (s := signedForm)
    (f := fun file => decide
      ((∀ x ∈ decimals file.sheet, ¬ UsesExponent x.2.text ∧ ZeroLed x.2.text) ∧
        ∃ d ∈ runAll (Config.only "leading-zero".toList (.flag true)) file,
          d.rule = "leading-zero".toList))
    (a := true) (by decide +kernel)
  exact ⟨file, hread, of_decide_eq_true hfile⟩

end LessStyle.Rule
