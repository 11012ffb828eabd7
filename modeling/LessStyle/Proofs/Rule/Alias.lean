import LessStyle.Proofs.Report.Dedup
import LessStyle.Proofs.Rule.Run
import LessStyle.Proofs.Sheet.Span
import LessStyle.Report

/-!
# A rule with two names

The rule on comments runs under two names, and a record and its double carry the same key. Leaving out
records with the key of an earlier one leaves out the doubles and nothing else.

A key is the name of a rule and a place, so it tells the place (`Rule.placeKey_inj`). Only the rules on
selectors and on comments give keys. The blocks of a sheet begin at different places, and so do the
tokens; hence the keys of a run are distinct, apart from those of the comments, which come twice if
both names are enabled.
-/

namespace LessStyle

/-! ## Keys -/

theorem Text.decimal_inj {m n : Nat} (h : decimal m = decimal n) : m = n := by
  have hm : Nat.ofDigitChars 10 (decimal m) 0 = m := Nat.ofDigitChars_ten_toDigits
  have hn : Nat.ofDigitChars 10 (decimal n) 0 = n := Nat.ofDigitChars_ten_toDigits
  rw [← hm, h, hn]

theorem Text.colon_notMem_decimal (n : Nat) : ':' ∉ decimal n := by
  intro h
  have hdigit := Nat.isDigit_of_mem_toDigits (by decide) (by decide) h
  revert hdigit
  decide

/-- A key tells the place. -/
theorem Rule.placeKey_inj {name : Text} {p q : Position} (h : placeKey name p = placeKey name q) :
    p = q := by
  simp only [placeKey, List.append_assoc, List.cons_append] at h
  have hrest := List.append_cancel_left h
  rw [List.cons.injEq, List.append_cons_inj_of_notMem (Text.colon_notMem_decimal _)
    (Text.colon_notMem_decimal _)] at hrest
  obtain ⟨-, hline, -, hcolumn⟩ := hrest
  exact congrArg₂ Position.mk (Text.decimal_inj hline) (Text.decimal_inj hcolumn)

/-- The keys of selectors are not those of comments. -/
theorem Rule.placeKey_newline_ne (p q : Position) :
    placeKey "require-newline".toList p ≠ placeKey "single-comment".toList q := by
  simp [placeKey]

/-! ## Keys of the rules -/

/-- Findings without keys. -/
def Finding.Keyless (fs : List Finding) : Prop := ∀ f ∈ fs, f.key = none

namespace Finding

theorem Keyless.nil : Keyless [] := by
  simp [Keyless]

theorem Keyless.singleton {f : Finding} (h : f.key = none) : Keyless [f] := by
  simpa [Keyless] using h

theorem Keyless.append {fs gs : List Finding} (hf : Keyless fs) (hg : Keyless gs) :
    Keyless (fs ++ gs) :=
  fun f h => (List.mem_append.1 h).elim (hf f) (hg f)

theorem Keyless.ite {fs gs : List Finding} {p : Prop} [Decidable p] (hf : Keyless fs)
    (hg : Keyless gs) : Keyless (if p then fs else gs) := by
  split
  · exact hf
  · exact hg

variable {α : Type}

theorem Keyless.map {g : α → Finding} (h : ∀ a, (g a).key = none) (as : List α) :
    Keyless (as.map g) := by
  intro f hf
  obtain ⟨a, -, rfl⟩ := List.mem_map.1 hf
  exact h a

theorem Keyless.toList_map {g : α → Finding} (h : ∀ a, (g a).key = none) (o : Option α) :
    Keyless (o.map g).toList := by
  rw [Option.toList_map]
  exact .map h _

theorem Keyless.flatMap {g : α → List Finding} (h : ∀ a, Keyless (g a)) (as : List α) :
    Keyless (as.flatMap g) := by
  intro f hf
  obtain ⟨a, -, hf⟩ := List.mem_flatMap.1 hf
  exact h a f hf

theorem Keyless.filterMap {g : α → Option Finding} (h : ∀ a, Keyless (g a).toList) (as : List α) :
    Keyless (as.filterMap g) := by
  rw [List.filterMap_eq_flatMap_toList]
  exact .flatMap h as

theorem Keyless.onePerLine {fs : List Finding} (h : Keyless fs) (last : Nat) :
    Keyless (Finding.onePerLine last fs) := by
  fun_induction Finding.onePerLine last fs with
  | case1 => exact h
  | case2 f fs ih => exact ih fun g hg => h g (List.mem_cons_of_mem _ hg)
  | case3 last f fs hf ih =>
    exact List.forall_mem_cons.2 ⟨h f List.mem_cons_self,
      ih fun g hg => h g (List.mem_cons_of_mem _ hg)⟩

end Finding

namespace Rule

open Finding (Keyless)

variable (page : Page)

theorem keyless_leadingZero (sheet : Sheet) : Keyless (leadingZero page sheet) := by
  unfold leadingZero
  split
  · exact .nil
  · exact .map (fun _ => rfl) _

theorem keyless_importFindings (first : Option Char) (r : AtRule) :
    Keyless (importFindings page first r) := by
  unfold importFindings
  refine .append ?_ (.ite .nil (.singleton rfl))
  split
  · exact .singleton rfl
  · exact .ite .nil (.singleton rfl)

theorem keyless_spaceAfter (setting : Setting) (sheet : Sheet) :
    Keyless (spaceAfter setting page sheet) := by
  refine .flatMap (fun d => .append (.ite ?_ .nil) (.ite (.toList_map (fun _ => rfl) _) .nil)) _
  unfold colonFinding?
  split
  · exact .singleton rfl
  · exact .nil

theorem keyless_spaceAround (sheet : Sheet) : Keyless (spaceAround page sheet) := by
  refine .flatMap (fun d => .filterMap (fun ⟨previous, i, next⟩ => ?_) _) _
  dsimp only
  unfold operatorFinding?
  split
  · split
    · exact .singleton rfl
    · exact .nil
  · exact .nil

theorem keyless_sameUnit (sheet : Sheet) : Keyless (sameUnit page sheet) := by
  refine .flatMap (fun d => .filterMap (fun ⟨previous, i, next⟩ => ?_) _) _
  dsimp only
  unfold unitFinding?
  split
  · split
    · exact .toList_map (fun _ => rfl) _
    · exact .nil
  · exact .nil

theorem keyless_startFinding? (p : Position) (expected : Nat) :
    Keyless (startFinding? page p expected).toList := by
  unfold startFinding?
  dsimp only
  split
  · split
    · exact .nil
    · exact .singleton rfl
  · exact .nil

theorem keyless_continuationFindings (expected line : Nat) (ss : List Text) :
    Keyless (continuationFindings page expected line ss) := by
  fun_induction continuationFindings page expected line ss with
  | case1 => exact .nil
  | case2 line s ss actual ih => exact .append (.ite .nil (.singleton rfl)) ih

theorem keyless_blockIndent (sheet : Sheet) : Keyless (blockIndent page sheet) := by
  refine .onePerLine (.flatMap (fun ⟨n, depth⟩ => ?_) _) _
  dsimp only
  unfold indentFindings
  split
  · exact .append (keyless_startFinding? page _ _) (keyless_continuationFindings page _ _ _)
  · exact .append (keyless_startFinding? page _ _) (keyless_continuationFindings page _ _ _)
  · exact keyless_startFinding? page _ _
  · exact .nil

/-- The names of the rules that give keys. -/
def keyedNames : List Text :=
  ["require-newline".toList, "single-comment".toList, "comment".toList]

/-- The findings of a rule with a given setting. -/
def findings (r : Rule) (setting : Setting) (file : File) : List Finding :=
  match r.check with
  | .sheet f => f setting file.page file.sheet
  | .tokens f => f file.page file.tokens

/-- The findings of the other rules have no keys. -/
theorem keyless_findings {r : Rule} (hr : r ∈ all) (hname : r.name ∉ keyedNames)
    (setting : Setting) (file : File) : Keyless (r.findings setting file) := by
  simp only [all, List.mem_cons, List.not_mem_nil, or_false] at hr
  -- rule by rule, in the order they run; the three with keys are excluded by their names
  rcases hr with rfl | rfl | rfl | rfl | rfl | rfl | rfl | rfl | rfl | rfl | rfl | rfl | rfl | rfl
  · exact .onePerLine (.map (fun _ => rfl) _) _
  · exact .flatMap (fun _ => .map (fun _ => rfl) _) _
  · exact .onePerLine (.filterMap (fun _ => .toList_map (fun _ => rfl) _) _) _
  · exact keyless_leadingZero _ _
  · exact .flatMap (keyless_importFindings _ _) _
  · exact .map (fun _ => rfl) _
  · exact .ite (.map (fun _ => rfl) _) .nil
  · exact keyless_spaceAfter _ _ _
  · exact keyless_spaceAround _ _
  · exact absurd (by decide) hname
  · exact keyless_blockIndent _ _
  · exact absurd (by decide) hname
  · exact absurd (by decide) hname
  · exact keyless_sameUnit _ _

end Rule

namespace Diagnostic

open Rule

theorem dedupKey_toDiagnostic {f : Finding} {name : Text} {p : Position} (rule : Text)
    (h : f.key = some (placeKey name p)) :
    (f.toDiagnostic rule).dedupKey = some (placeKey name p) := by
  simp [dedupKey, Finding.toDiagnostic, h, placeKey, Option.filter]

/-- All records have keys for places under this name, and the keys are distinct. -/
structure KeyedBy (name : Text) (ds : List Diagnostic) : Prop where
  nodup : (keys ds).Nodup
  exists_key : ∀ d ∈ ds, ∃ p, d.dedupKey = some (placeKey name p)

theorem KeyedBy.nil (name : Text) : KeyedBy name [] := ⟨by simp [keys], by simp⟩

section

variable {α : Type} {name : Text} {first : α → Position} {finding? : α → Option Finding}

/-- Findings with keys for different places have different keys. -/
theorem keyedBy_of_pairwise
    (hkey : ∀ a f, finding? a = some f → f.key = some (placeKey name (first a)))
    {as : List α} (hinc : as.Pairwise fun a b => first a < first b) (rule : Text) :
    KeyedBy name ((as.filterMap finding?).map (·.toDiagnostic rule)) where
  nodup := by
    rw [keys, List.Nodup, List.pairwise_filterMap, List.pairwise_map, List.pairwise_filterMap]
    refine hinc.imp fun {a b} hlt f hf g hg key hkf key' hkg => ?_
    rw [dedupKey_toDiagnostic rule (hkey a f hf)] at hkf
    rw [dedupKey_toDiagnostic rule (hkey b g hg)] at hkg
    cases hkf
    cases hkg
    exact fun heq => hlt.ne (placeKey_inj heq)
  exists_key := by
    intro d hd
    obtain ⟨f, hf, rfl⟩ := List.mem_map.1 hd
    obtain ⟨a, -, hf⟩ := List.mem_filterMap.1 hf
    exact ⟨first a, dedupKey_toDiagnostic rule (hkey a f hf)⟩

end

end Diagnostic

namespace Rule

open Diagnostic

/-- The rule on selectors. -/
def selectors : Rule := onSheet "require-newline" oneSelectorPerLine

/-- The rule on comments under a name. -/
def comments (name : Text) : Rule := ⟨name, .tokens lineComments⟩

/-- The rules before those on comments. -/
def front : List Rule := all.take 11

theorem all_eq : all = front ++ [comments "single-comment".toList, comments "comment".toList,
    onSheet "operate-unit" sameUnit] :=
  rfl

variable {config : Config} {file : File}

theorem keyedBy_selectors
    (h : file.sheet.blocks.Pairwise fun a b => a.span.first < b.span.first) :
    KeyedBy "require-newline".toList (selectors.run config file) := by
  rw [run_eq]
  cases config.enabled? selectors.name with
  | none => exact .nil _
  | some setting =>
    change KeyedBy _ ((oneSelectorPerLine _ _).map _)
    rw [oneSelectorPerLine, List.filterMap_filter]
    refine keyedBy_of_pairwise (fun b f hf => ?_) h _
    rw [Option.ite_none_right_eq_some] at hf
    obtain ⟨front, -, rfl⟩ := Option.map_eq_some_iff.1 hf.2
    rfl

theorem keyedBy_comments (h : file.tokens.Pairwise fun a b => a.span.first < b.span.first)
    (name : Text) : KeyedBy "single-comment".toList ((comments name).run config file) := by
  rw [run_eq]
  cases config.enabled? (comments name).name with
  | none => exact .nil _
  | some setting =>
    change KeyedBy _ ((lineComments _ _).map _)
    unfold lineComments
    rw [← List.filterMap_eq_map (f := fun t : Token => _), List.filterMap_filter]
    refine keyedBy_of_pairwise (fun t f hf => ?_) h _
    rw [Option.ite_none_right_eq_some] at hf
    obtain ⟨-, hf⟩ := hf
    cases hf
    rfl

/-- The other rules give no keys. -/
theorem keys_run_of_notMem {r : Rule} (hr : r ∈ all) (hname : r.name ∉ keyedNames) :
    keys (r.run config file) = [] := by
  rw [run_eq]
  cases config.enabled? r.name with
  | none => rfl
  | some setting =>
    refine List.filterMap_eq_nil_iff.2 fun d hd => ?_
    obtain ⟨f, hf, rfl⟩ := List.mem_map.1 hd
    have hkey : (f.toDiagnostic r.name).key = none := keyless_findings hr hname setting file f hf
    rw [dedupKey, hkey]
    rfl

/-- Of the rules before those on comments, the rule on selectors gives keys. -/
theorem keys_front :
    keys (front.flatMap (·.run config file)) = keys (selectors.run config file) := by
  have hfront : front = all.take 9 ++ [selectors, onSheet "block-indent" blockIndent] := rfl
  have hnone : ∀ r ∈ all.take 9, keys (r.run config file) = [] := by
    have hnames : ∀ r ∈ all.take 9, r.name ∉ keyedNames := by decide
    exact fun r hr => keys_run_of_notMem (List.mem_of_mem_take hr) (hnames r hr)
  have hindent : keys ((onSheet "block-indent" blockIndent).run config file) = [] :=
    keys_run_of_notMem (by simp [all]) (by decide)
  have hflat : keys ((all.take 9).flatMap (·.run config file)) = [] := by
    rw [keys, List.filterMap_flatMap]
    exact List.flatMap_eq_nil_iff.2 hnone
  rw [hfront, List.flatMap_append, keys_append, hflat]
  simp [hindent]

/-- The records of a run: those before the comments, those of the comments under both names, and those
after them. -/
theorem runAll_eq (config : Config) (file : File) :
    runAll config file =
      front.flatMap (·.run config file) ++ (comments "single-comment".toList).run config file ++
        ((comments "comment".toList).run config file ++
          (onSheet "operate-unit" sameUnit).run config file) := by
  rw [runAll, all_eq, List.flatMap_append]
  simp

theorem mem_run_comments {name : Text} {d : Diagnostic} :
    d ∈ (comments name).run config file ↔
      (config.enabled? name).isSome = true ∧
        ∃ f ∈ lineComments file.page file.tokens, f.toDiagnostic name = d := by
  rw [run_eq]
  change d ∈ (config.enabled? name).elim [] _ ↔ _
  cases config.enabled? name with
  | none => simp
  | some setting => simp [apply, comments]

/-- If both names are enabled, each record under the second has the key of one under the first. -/
theorem exists_key_of_mem_comments
    (h : file.tokens.Pairwise fun a b => a.span.first < b.span.first)
    (hsingle : (config.enabled? "single-comment".toList).isSome = true) {d : Diagnostic}
    (hd : d ∈ (comments "comment".toList).run config file) :
    ∃ key ∈ keys ((comments "single-comment".toList).run config file), d.dedupKey = some key := by
  obtain ⟨p, hkey⟩ := (keyedBy_comments h _).exists_key d hd
  obtain ⟨-, f, hf, rfl⟩ := mem_run_comments.1 hd
  exact ⟨_, List.mem_filterMap.2 ⟨_, mem_run_comments.2 ⟨hsingle, f, hf, rfl⟩, hkey⟩, hkey⟩

/-- The comments have no records under a name that is off. -/
theorem run_comments_of_off {name : Text} (h : ¬(config.enabled? name).isSome = true) :
    (comments name).run config file = [] :=
  List.eq_nil_iff_forall_not_mem.2 fun _ hd => h (mem_run_comments.1 hd).1

theorem keys_unit : keys ((onSheet "operate-unit" sameUnit).run config file) = [] :=
  keys_run_of_notMem (by simp [all]) (by decide)

/-- The records of a run without those of comments under the second name. -/
theorem filter_runAll (config : Config) (file : File) :
    (runAll config file).filter (·.rule ≠ "comment".toList) =
      front.flatMap (·.run config file) ++ (comments "single-comment".toList).run config file ++
        (onSheet "operate-unit" sameUnit).run config file := by
  have hnames : ∀ r ∈ front, r.name ≠ "comment".toList := by decide
  have hfront : (front.flatMap (·.run config file)).filter (·.rule ≠ "comment".toList) =
      front.flatMap (·.run config file) := by
    rw [List.filter_flatMap]
    exact List.flatMap_congr fun r hr => filter_run_of_ne (hnames r hr)
  have hcomment : (comments "comment".toList).name = "comment".toList := rfl
  rw [runAll_eq, List.filter_append, List.filter_append, List.filter_append, hfront,
    filter_run_of_eq hcomment, filter_run_of_ne (by decide), filter_run_of_ne (by decide),
    List.nil_append]

end Rule

/-! ## Blocks and tokens -/

theorem File.eq_of_read {s : Text} {file : File} (h : File.read s = .ok file) :
    file.page = .of s ∧ Token.tokenize s = .ok file.tokens ∧
      Sheet.ofTokens file.tokens = .ok file.sheet := by
  unfold read at h
  split at h
  · cases h
  · next tokens htokens =>
    split at h
    · cases h
    · next sheet hsheet =>
      cases h
      exact ⟨rfl, htokens, hsheet⟩

/-- A file that is read and what is computed from it. -/
theorem File.exists_of_eval {α : Type} {s : Text} {f : File → α} {a : α}
    (h : (File.read s).toOption.map f = some a) : ∃ file, File.read s = .ok file ∧ f file = a := by
  cases hread : File.read s with
  | error e =>
    rw [hread] at h
    cases h
  | ok file =>
    rw [hread] at h
    exact ⟨file, rfl, Option.some.inj h⟩

theorem File.tokenize_of_read {s : Text} {file : File} (h : File.read s = .ok file) :
    Token.tokenize s = .ok file.tokens ∧ Sheet.ofTokens file.tokens = .ok file.sheet :=
  (eq_of_read h).2

/-- The blocks of a sheet begin one after another. -/
theorem Sheet.pairwise_blocks {s : Text} {ts : List Token} {sheet : Sheet}
    (hlex : Token.Lexed .start .start s ts) (hsheet : ofTokens ts = .ok sheet) :
    sheet.blocks.Pairwise fun a b => a.span.first < b.span.first := by
  refine (pairwise_walk_first hlex hsheet).filterMap _ fun m n hlt b hb b' hb' => ?_
  split at hb
  · split at hb'
    · cases hb
      cases hb'
      exact hlt
    · cases hb'
  · cases hb

/-! ## Checking -/

namespace Diagnostic

open Rule

/-- The keys of selectors and of comments together are distinct. -/
theorem nodup_keys_append {ds es : List Diagnostic} (hds : KeyedBy "require-newline".toList ds)
    (hes : KeyedBy "single-comment".toList es) : (keys ds ++ keys es).Nodup := by
  refine List.nodup_append.2 ⟨hds.nodup, hes.nodup, fun key hkey key' hkey' => ?_⟩
  obtain ⟨d, hd, hkd⟩ := List.mem_filterMap.1 hkey
  obtain ⟨e, he, hke⟩ := List.mem_filterMap.1 hkey'
  obtain ⟨p, hp⟩ := hds.exists_key d hd
  obtain ⟨q, hq⟩ := hes.exists_key e he
  cases hkd.symm.trans hp
  cases hke.symm.trans hq
  exact placeKey_newline_ne p q

/-- Records with distinct keys have no key in common. -/
theorem pairwise_of_nodup {ds : List Diagnostic} (h : (keys ds).Nodup) :
    ds.Pairwise fun a b => ∀ key, a.dedupKey = some key → b.dedupKey ≠ some key := by
  rw [keys, List.Nodup, List.pairwise_filterMap] at h
  exact h.imp fun {a b} hne key ha hb => hne key ha key hb rfl

end Diagnostic

namespace Rule

open Diagnostic

section

variable {config : Config} {file : File}
  (hblocks : file.sheet.blocks.Pairwise fun a b => a.span.first < b.span.first)
  (htokens : file.tokens.Pairwise fun a b => a.span.first < b.span.first)

include hblocks htokens

/-- Up to the comments under one of their names, all keys are distinct. -/
theorem nodup_keys_front (config : Config) (name : Text) :
    (keys (front.flatMap (·.run config file) ++ (comments name).run config file)).Nodup := by
  rw [keys_append, keys_front]
  exact nodup_keys_append (keyedBy_selectors hblocks) (keyedBy_comments htokens name)

/-- Leaving out doubles leaves out the records of comments under the second name, if there are any
under the first. -/
theorem dedup_runAll :
    dedup (runAll config file) =
      if (config.enabled? "single-comment".toList).isSome = true ∧
          (config.enabled? "comment".toList).isSome = true then
        (runAll config file).filter (·.rule ≠ "comment".toList)
      else runAll config file := by
  split
  · next hboth =>
    rw [filter_runAll, runAll_eq]
    refine dedup_append_append (nodup_keys_front hblocks htokens _ _) (fun d hd => ?_) keys_unit
    obtain ⟨key, hkey, heq⟩ := exists_key_of_mem_comments htokens hboth.1 hd
    exact ⟨key, by rw [keys_append]; exact List.mem_append_right _ hkey, heq⟩
  · next hnot =>
    -- the comments have records under one name at most
    apply dedup_of_nodup
    rw [runAll_eq, ← List.append_assoc, keys_append, keys_unit, List.append_nil]
    rcases not_and_or.1 hnot with hoff | hoff
    · rw [run_comments_of_off hoff, List.append_nil]
      exact nodup_keys_front hblocks htokens _ _
    · rw [run_comments_of_off hoff, List.append_nil]
      exact nodup_keys_front hblocks htokens _ _

/-- Two records with the same key are a comment under its two names. -/
theorem pairwise_runAll :
    (runAll config file).Pairwise fun a b => ∀ key, a.dedupKey = some key →
      b.dedupKey = some key → a.rule = "single-comment".toList ∧ b.rule = "comment".toList := by
  have hsingle :=
    pairwise_of_nodup (nodup_keys_front hblocks htokens config "single-comment".toList)
  have hcomment :=
    pairwise_of_nodup (nodup_keys_front hblocks htokens config "comment".toList)
  have hlast : (keys ((comments "comment".toList).run config file ++
      (onSheet "operate-unit" sameUnit).run config file)).Nodup := by
    rw [keys_append, keys_unit, List.append_nil]
    exact (keyedBy_comments htokens _).nodup
  rw [runAll_eq, List.pairwise_append]
  refine ⟨hsingle.imp fun hne key ha hb => absurd hb (hne key ha),
    (pairwise_of_nodup hlast).imp fun hne key ha hb => absurd hb (hne key ha),
    fun a ha b hb key hkeya hkeyb => ?_⟩
  -- only a record of each name can have the key of the other
  rcases List.mem_append.1 hb with hb | hb
  · rcases List.mem_append.1 ha with ha | ha
    · exact absurd hkeyb ((List.pairwise_append.1 hcomment).2.2 a ha b hb key hkeya)
    · exact ⟨rule_of_mem_run ha, rule_of_mem_run hb⟩
  · have hkey : key ∈ keys ((onSheet "operate-unit" sameUnit).run config file) :=
      List.mem_filterMap.2 ⟨b, hb, hkeyb⟩
    rw [keys_unit] at hkey
    cases hkey

end

end Rule

/-- **Only doubles are left out.** Checking a text that can be read gives the records of a run of the
rules; if comments are checked under both names, it gives these without the records under the second
name. Any two records of a run with the same key are a comment under its two names. -/
theorem check_of_read (config : Config) {source : Text} {file : File}
    (h : File.read source.normalize = .ok file) :
    check config source =
        .ok (if (config.enabled? "single-comment".toList).isSome = true ∧
            (config.enabled? "comment".toList).isSome = true then
          (Rule.runAll config file).filter (·.rule ≠ "comment".toList)
        else Rule.runAll config file) ∧
      (Rule.runAll config file).Pairwise fun a b => ∀ key, a.dedupKey = some key →
        b.dedupKey = some key → a.rule = "single-comment".toList ∧ b.rule = "comment".toList := by
  obtain ⟨hts, hsheet⟩ := File.tokenize_of_read h
  have hlex := Token.lexed_of_tokensFrom hts
  have htokens := hlex.located.pairwise_first hlex.text_ne_nil
  have hblocks := Sheet.pairwise_blocks hlex hsheet
  refine ⟨?_, Rule.pairwise_runAll hblocks htokens⟩
  rw [check, h, ← Rule.dedup_runAll hblocks htokens]

/-- Selectors, and comments under both names. -/
def Config.aliased : Config :=
  Dict.ofList (Rule.keyedNames.map fun name => (name, .flag true))

theorem check_of_read_double :
    ∃ file, File.read (Text.normalize "a,b\x7b\x7d\r/* c */".toList) = .ok file ∧
      (Rule.runAll Config.aliased file).map (·.rule) = Rule.keyedNames ∧
      check Config.aliased "a,b\x7b\x7d\r/* c */".toList =
        .ok ((Rule.runAll Config.aliased file).filter (·.rule ≠ "comment".toList)) := by
  have hrules : (File.read (Text.normalize "a,b\x7b\x7d\r/* c */".toList)).toOption.map
      (fun file => (Rule.runAll Config.aliased file).map (·.rule)) = some Rule.keyedNames := by
    decide +kernel
  have hboth : (Config.aliased.enabled? "single-comment".toList).isSome = true ∧
      (Config.aliased.enabled? "comment".toList).isSome = true := by
    decide
  cases hread : File.read (Text.normalize "a,b\x7b\x7d\r/* c */".toList) with
  | error e =>
    rw [hread] at hrules
    cases hrules
  | ok file =>
    rw [hread] at hrules
    obtain ⟨hcheck, -⟩ := check_of_read Config.aliased hread
    rw [if_pos hboth] at hcheck
    exact ⟨file, rfl, Option.some.inj hrules, hcheck⟩

end LessStyle
