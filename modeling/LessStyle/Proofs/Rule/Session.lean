import LessStyle.Proofs.Rule.Run
import Mathlib.Data.List.ModifyLast

/-!
# Rules that share a session

The findings of a rule are a function of the file. They can also be made in one pass over all rules
with a `Session` that every rule may read and write: the list of all records so far, and two
conventions that the first item of a file sets, the form of decimals and the quote of imports. Records
are put down one at a time, and two rules go back to the record they have just put down and give it a
key.

Each convention belongs to one rule. So a rule finds it unset, leaves that of the other rule and the
earlier records as they are, and puts down its findings (`Session.records_act`, `Session.unset_act`).
A pass is then a run of the rules (`Session.records_run`), and no rule notices another.
-/

namespace LessStyle

open Rule

/-- What the rules share while they check a file. -/
structure Session where
  /-- Decimals have their leading zero, as far as a decimal was seen. -/
  leadingZero : Option Bool
  /-- The first quote of an import. -/
  importQuote : Option Char
  /-- The records of all rules so far, the latest last. -/
  records : List Diagnostic
  deriving DecidableEq, Repr

namespace Session

/-- Nothing is set. -/
def start : Session := ⟨none, none, []⟩

/-- One more record. -/
def push (s : Session) (d : Diagnostic) : Session := { s with records := s.records ++ [d] }

/-- One more finding of the rule with this name. -/
def report (rule : Text) (s : Session) (f : Finding) : Session := s.push (f.toDiagnostic rule)

/-- The latest record gets a key. -/
def keyLatest (s : Session) (key : Text) : Session :=
  { s with records := s.records.modifyLast fun d => { d with key := some key } }

/-- Look at a decimal: the first one sets the convention. -/
def onDecimal (rule : Text) (page : Page) (s : Session) : Declaration × Part → Session
  | (d, p) =>
    let withZero := hasLeadingZero p.text
    let convention := s.leadingZero.getD withZero
    let s := { s with leadingZero := some convention }
    if withZero = convention then s
    else
      s.report rule <| page.reportColumns d.span.first.line (d.columnAt p.offset) p.text.length
        (leadingZeroMessage convention)

/-- Look at an import: the first quote sets the convention. -/
def onImport (rule : Text) (page : Page) (s : Session) (r : AtRule) : Session :=
  let line := r.span.first.line
  let column := r.span.first.column + 1 + r.name.length + r.afterName.length
  let (quote, path) := importTarget r.params
  let s :=
    match quote with
    | none => s.report rule (page.quoteSegment line column r.params importQuoteMessage)
    | some q =>
      let first := s.importQuote.getD q
      let s := { s with importQuote := some first }
      if q = first then s
      else s.report rule (page.quoteSegment line column [q] (importSameQuoteMessage first))
  if path.endsWith ".less".toList then s
  else s.report rule (page.quoteSegment line column path importSuffixMessage)

/-- Look at the selectors of a block. -/
def onSelectors (rule : Text) (page : Page) (s : Session) (b : Block) : Session :=
  match if b.params.isNone then inlineComma? b.selector else none with
  | some front =>
    let p := b.span.first
    (s.report rule <| page.reportSegment (p.line + front.count '\n') p.column
      (firstLine b.selector) oneSelectorMessage).keyLatest (placeKey "require-newline".toList p)
  | none => s

/-- Look at a token for a comment. -/
def onToken (rule : Text) (page : Page) (s : Session) (t : Token) : Session :=
  if t.kind = .blockComment ∧ t.span.first.line = t.span.last.line then
    let p := t.span.first
    (s.report rule <| page.quoteSegment p.line p.column t.text lineCommentMessage).keyLatest
      (placeKey "single-comment".toList p)
  else s

/-- What a rule does in a session. -/
def act (r : Rule) (setting : Setting) (file : File) (s : Session) : Session :=
  if r.name = "leading-zero".toList then
    (decimals file.sheet).foldl (onDecimal r.name file.page) s
  else if r.name = "import".toList then
    (imports file.sheet).foldl (onImport r.name file.page) s
  else if r.name = "require-newline".toList then
    file.sheet.blocks.foldl (onSelectors r.name file.page) s
  else if r.name = "single-comment".toList ∨ r.name = "comment".toList then
    file.tokens.foldl (onToken r.name file.page) s
  else (r.apply setting file).foldl push s

/-- The rules one after another, as far as the configuration enables them. -/
def runRules (config : Config) (file : File) (s : Session) (rules : List Rule) : Session :=
  rules.foldl (fun s r => (config.enabled? r.name).elim s (act r · file s)) s

/-- One pass of all rules over a file. -/
def run (config : Config) (file : File) : Session := runRules config file start all

/-! ## Records -/

/-- The session with more records. -/
def append (s : Session) (ds : List Diagnostic) : Session := { s with records := s.records ++ ds }

@[simp] theorem append_nil (s : Session) : s.append [] = s := by
  simp [append]

@[simp] theorem append_append (s : Session) (ds es : List Diagnostic) :
    (s.append ds).append es = s.append (ds ++ es) := by
  simp [append]

theorem report_eq (rule : Text) (s : Session) (f : Finding) :
    s.report rule f = s.append [f.toDiagnostic rule] := rfl

/-- A key given to the finding just reported is given to no earlier record. -/
theorem keyLatest_report (rule : Text) (s : Session) (f : Finding) (key : Text) :
    (s.report rule f).keyLatest key = s.append [(f.withKey key).toDiagnostic rule] := by
  simp [report, push, keyLatest, append, Finding.toDiagnostic, Finding.withKey,
    List.modifyLast_concat]

/-- A pass over items that puts down records for each. -/
theorem foldl_append {α : Type} {step : Session → α → Session} {out : α → List Diagnostic}
    (h : ∀ s x, step s x = s.append (out x)) (xs : List α) (s : Session) :
    xs.foldl step s = s.append (xs.flatMap out) := by
  induction xs generalizing s with
  | nil => simp
  | cons x xs ih => rw [List.foldl_cons, ih, h, append_append, List.flatMap_cons]

/-- The same, with at most one finding of a rule for each. -/
theorem foldl_filterMap {α : Type} {rule : Text} {step : Session → α → Session}
    {finding? : α → Option Finding}
    (h : ∀ s x, step s x = s.append ((finding? x).toList.map (·.toDiagnostic rule)))
    (xs : List α) (s : Session) :
    xs.foldl step s = s.append ((xs.filterMap finding?).map (·.toDiagnostic rule)) := by
  rw [foldl_append h, List.filterMap_eq_flatMap_toList, List.map_flatMap]

theorem foldl_push (s : Session) (ds : List Diagnostic) : ds.foldl push s = s.append ds := by
  have h : ∀ (s : Session) (d : Diagnostic), s.push d = s.append [d] := fun _ _ => rfl
  rw [foldl_append h, List.flatMap_singleton']

/-- Selectors: a pass over the blocks puts down the findings. -/
theorem foldl_onSelectors (rule : Text) (page : Page) (sheet : Sheet) (s : Session) :
    sheet.blocks.foldl (onSelectors rule page) s =
      s.append ((oneSelectorPerLine page sheet).map (·.toDiagnostic rule)) := by
  rw [oneSelectorPerLine, List.filterMap_filter]
  refine foldl_filterMap (fun s b => ?_) _ s
  unfold onSelectors
  cases b.params.isNone with
  | false => simp
  | true =>
    cases inlineComma? b.selector with
    | none => simp
    | some front => exact keyLatest_report _ _ _ _

/-- Comments: a pass over the tokens puts down the findings. -/
theorem foldl_onToken (rule : Text) (page : Page) (ts : List Token) (s : Session) :
    ts.foldl (onToken rule page) s =
      s.append ((lineComments page ts).map (·.toDiagnostic rule)) := by
  unfold lineComments
  rw [← List.filterMap_eq_map (f := fun t : Token => _), List.filterMap_filter]
  refine foldl_filterMap (fun s t => ?_) _ s
  unfold onToken
  split
  · next h =>
    rw [keyLatest_report]
    simp [h.1, h.2]
  · next h =>
    have hfalse : (decide (t.kind = .blockComment) &&
        decide (t.span.first.line = t.span.last.line)) = false := by simpa using h
    simp [hfalse]

/-! ## Conventions -/

/-- Behind the first decimal, a decimal is put down if it is written otherwise. -/
theorem foldl_onDecimal (rule : Text) (page : Page) (ds : List (Declaration × Part)) {s : Session}
    {convention : Bool} (h : s.leadingZero = some convention) :
    ds.foldl (onDecimal rule page) s =
      s.append (((ds.filter fun (_, p) => hasLeadingZero p.text != convention).map fun (d, p) =>
        page.reportColumns d.span.first.line (d.columnAt p.offset) p.text.length
          (leadingZeroMessage convention)).map (·.toDiagnostic rule)) := by
  induction ds generalizing s with
  | nil => simp
  | cons x ds ih =>
    obtain ⟨d, p⟩ := x
    have hset : { s with leadingZero := some convention } = s := by rw [← h]
    rw [List.foldl_cons, onDecimal]
    simp only [h, Option.getD_some, hset]
    by_cases hzero : hasLeadingZero p.text = convention
    · rw [if_pos hzero, ih h]
      simp [hzero]
    · rw [if_neg hzero, report_eq, ih (s := s.append _) h, append_append]
      simp [hzero]

/-- Decimals: if the convention is unset, a pass puts down the findings. -/
theorem records_foldl_onDecimal (rule : Text) (page : Page) (sheet : Sheet) {s : Session}
    (h : s.leadingZero = none) :
    ((decimals sheet).foldl (onDecimal rule page) s).records =
      s.records ++ (Rule.leadingZero page sheet).map (·.toDiagnostic rule) := by
  unfold Rule.leadingZero
  cases decimals sheet with
  | nil => simp
  | cons x ds =>
    obtain ⟨d, p⟩ := x
    rw [List.foldl_cons, onDecimal]
    simp only [h, Option.getD_none, if_true]
    rw [foldl_onDecimal rule page ds rfl]
    simp [append]

/-- An import puts down its findings with the quote that is set; if none is, it sets its own. -/
theorem onImport_eq (rule : Text) (page : Page) (s : Session) (r : AtRule) :
    onImport rule page s r =
      append { s with importQuote := s.importQuote.or (importTarget r.params).1 }
        ((importFindings page s.importQuote r).map (·.toDiagnostic rule)) := by
  unfold onImport importFindings
  generalize importTarget r.params = target
  obtain ⟨quote, path⟩ := target
  cases quote with
  | none =>
    dsimp only
    cases path.endsWith ".less".toList <;> simp [report_eq, append]
  | some q =>
    have hquote : s.importQuote.or (some q) = some (s.importQuote.getD q) := by
      cases s.importQuote <;> rfl
    simp only [hquote]
    by_cases hq : q = s.importQuote.getD q
    · cases path.endsWith ".less".toList <;> simp [report_eq, ← hq]
    · cases path.endsWith ".less".toList <;> simp [report_eq, hq]

/-- The findings on an import are those with its own quote if none is set. -/
theorem importFindings_or (page : Page) (first other : Option Char) (r : AtRule) :
    importFindings page (first.or ((importTarget r.params).1.or other)) r =
      importFindings page first r := by
  unfold importFindings
  generalize importTarget r.params = target
  obtain ⟨quote, path⟩ := target
  cases quote with
  | none => rfl
  | some q => cases first <;> rfl

/-- Imports: a pass puts down the findings with the quote that is set, or else with the first one. -/
theorem foldl_onImport (rule : Text) (page : Page) (rs : List AtRule) (s : Session) :
    rs.foldl (onImport rule page) s =
      let first := s.importQuote.or (rs.findSome? fun r => (importTarget r.params).1)
      append { s with importQuote := first }
        ((rs.flatMap (importFindings page first)).map (·.toDiagnostic rule)) := by
  induction rs generalizing s with
  | nil => simp [append]
  | cons r rs ih =>
    have hfirst : (r :: rs).findSome? (fun r => (importTarget r.params).1) =
        (importTarget r.params).1.or (rs.findSome? fun r => (importTarget r.params).1) := by
      rw [List.findSome?_cons]
      cases (importTarget r.params).1 <;> rfl
    rw [List.foldl_cons, ih, onImport_eq, hfirst]
    simp only [append, Option.or_assoc, List.flatMap_cons, List.map_append, importFindings_or,
      List.append_assoc]

theorem records_foldl_onImport (rule : Text) (page : Page) (sheet : Sheet) {s : Session}
    (h : s.importQuote = none) :
    ((imports sheet).foldl (onImport rule page) s).records =
      s.records ++ (importPath page sheet).map (·.toDiagnostic rule) := by
  rw [foldl_onImport, h]
  rfl

/-! ## Rules -/

section

variable {r : Rule} (setting : Setting) (file : File) {s : Session}

/-- A rule without a convention only puts down records. -/
theorem exists_act_eq (hz : r.name ≠ "leading-zero".toList) (hi : r.name ≠ "import".toList) :
    ∃ ds, act r setting file s = s.append ds := by
  rw [act, if_neg hz, if_neg hi]
  split
  · exact ⟨_, foldl_onSelectors _ _ _ _⟩
  split
  · exact ⟨_, foldl_onToken _ _ _ _⟩
  · exact ⟨_, foldl_push _ _⟩

/-- Only the rule on decimals touches the convention on decimals. -/
theorem leadingZero_act (h : r.name ≠ "leading-zero".toList) :
    (act r setting file s).leadingZero = s.leadingZero := by
  by_cases hi : r.name = "import".toList
  · rw [act, if_neg h, if_pos hi, foldl_onImport]
    rfl
  · obtain ⟨ds, hds⟩ := exists_act_eq setting file h hi
    rw [hds]
    rfl

theorem importQuote_foldl_onDecimal (rule : Text) (page : Page) (ds : List (Declaration × Part)) :
    (ds.foldl (onDecimal rule page) s).importQuote = s.importQuote := by
  induction ds generalizing s with
  | nil => rfl
  | cons x ds ih =>
    rw [List.foldl_cons, ih, onDecimal]
    split <;> rfl

/-- Only the rule on imports touches the convention on quotes. -/
theorem importQuote_act (h : r.name ≠ "import".toList) :
    (act r setting file s).importQuote = s.importQuote := by
  by_cases hz : r.name = "leading-zero".toList
  · rw [act, if_pos hz]
    exact importQuote_foldl_onDecimal _ _ _
  · obtain ⟨ds, hds⟩ := exists_act_eq setting file hz h
    rw [hds]
    rfl

/-- The conventions that belong to the rule with this name are unset. -/
structure Unset (s : Session) (name : Text) : Prop where
  leadingZero : name = "leading-zero".toList → s.leadingZero = none
  importQuote : name = "import".toList → s.importQuote = none

/-- The conventions of other rules stay unset. -/
theorem unset_act {name : Text} (hne : name ≠ r.name) (h : s.Unset name) :
    (act r setting file s).Unset name where
  leadingZero := by
    rintro rfl
    rw [leadingZero_act setting file hne.symm, h.leadingZero rfl]
  importQuote := by
    rintro rfl
    rw [importQuote_act setting file hne.symm, h.importQuote rfl]

/-- **What a rule does in a session** where its conventions are unset: it leaves the records that are
there and puts down its own. -/
theorem records_act (hr : r ∈ all) (h : s.Unset r.name) :
    (act r setting file s).records = s.records ++ r.apply setting file := by
  unfold act
  split
  · next hname =>
    obtain rfl := eq_of_name_eq (q := onSheet "leading-zero" Rule.leadingZero) hr (by simp [all])
      hname
    exact records_foldl_onDecimal _ _ _ (h.leadingZero rfl)
  split
  · next hname =>
    obtain rfl := eq_of_name_eq (q := onSheet "import" importPath) hr (by simp [all]) hname
    exact records_foldl_onImport _ _ _ (h.importQuote rfl)
  split
  · next hname =>
    obtain rfl := eq_of_name_eq (q := onSheet "require-newline" oneSelectorPerLine) hr
      (by simp [all]) hname
    rw [foldl_onSelectors]
    rfl
  split
  · next hname =>
    rw [foldl_onToken]
    rcases hname with hname | hname
    · obtain rfl := eq_of_name_eq (q := ⟨"single-comment".toList, .tokens lineComments⟩) hr
        (by simp [all]) hname
      rfl
    · obtain rfl := eq_of_name_eq (q := ⟨"comment".toList, .tokens lineComments⟩) hr
        (by simp [all]) hname
      rfl
  · rw [foldl_push]
    rfl

end

/-- Rules with different names put down their records one after another. The conventions of each are
unset when its turn comes. -/
theorem records_runRules (config : Config) (file : File) {rules : List Rule}
    (hall : ∀ r ∈ rules, r ∈ all) (hnames : (rules.map name).Nodup) {s : Session}
    (h : ∀ r ∈ rules, s.Unset r.name) :
    (runRules config file s rules).records =
      s.records ++ rules.flatMap (·.run config file) := by
  induction rules generalizing s with
  | nil => simp [runRules]
  | cons r rules ih =>
    rw [List.map_cons, List.nodup_cons] at hnames
    have hrules : ∀ q ∈ rules, q ∈ all := fun q hq => hall q (List.mem_cons_of_mem _ hq)
    have hs : ∀ q ∈ rules, s.Unset q.name := fun q hq => h q (List.mem_cons_of_mem _ hq)
    rw [runRules, List.foldl_cons, List.flatMap_cons, run_eq]
    cases config.enabled? r.name with
    | none => exact ih hrules hnames.2 hs
    | some setting =>
      -- the rules still to come have other names, so their conventions stay unset
      have hact : ∀ q ∈ rules, (act r setting file s).Unset q.name := by
        intro q hq
        have hne : q.name ≠ r.name := fun heq => hnames.1 (heq ▸ List.mem_map_of_mem hq)
        exact unset_act setting file hne (hs q hq)
      have hr := records_act setting file (hall r List.mem_cons_self) (h r List.mem_cons_self)
      rw [← List.append_assoc, Option.elim_some, Option.elim_some, ← hr]
      exact ih hrules hnames.2 hact

/-- A pass over a file puts down the records of a run. -/
theorem records_run (config : Config) (file : File) :
    (run config file).records = runAll config file :=
  records_runRules config file (fun _ h => h) nodup_names fun _ _ => ⟨fun _ => rfl, fun _ => rfl⟩

end Session

namespace Rule

/-- **Rules do not interfere.** One pass of all rules over a file, with a session that they share, puts
down the records of a run, and these are the records of the configured rules, each run alone, in the
order of the rules. So two configurations that differ in the setting of one rule give the same records
of all others, and a setting under a name that no rule has changes nothing. -/
theorem runAll_independent (file : File) :
    (∀ config, (Session.run config file).records = runAll config file) ∧
    (∀ config, runAll config file =
      (configured config).flatMap fun (r, setting) => runAll (Config.only r.name setting) file) ∧
    (∀ (config config' : Config) (name : Text),
      (∀ r ∈ all, r.name ≠ name → config.get? r.name = config'.get? r.name) →
      (runAll config file).filter (·.rule ≠ name) =
        (runAll config' file).filter (·.rule ≠ name)) ∧
    ∀ (config : Config) (name : Text) (setting : Setting), find? name = none →
      runAll (config.insert name setting) file = runAll config file := by
  refine ⟨fun config => Session.records_run config file,
    fun config => runAll_eq_flatMap config file,
    fun config config' name h => filter_runAll_congr h, fun config name setting h => ?_⟩
  refine List.flatMap_congr fun r hr => run_congr (Config.enabled?_congr ?_)
  have hne : r.name ≠ name := by simpa using List.find?_eq_none.1 h r hr
  exact Dict.get?_insert_of_ne _ _ hne

/-- Decimals, as wanted, and comments are checked. -/
def sampleConfig (decimals : Bool) : Config :=
  Dict.ofList [("leading-zero".toList, .flag decimals), ("comment".toList, .flag true)]

theorem runAll_independent_decimals :
    ∃ file, File.read "a\x7bb:.5 0.5/* c */\x7d".toList = .ok file ∧
      (runAll (sampleConfig true) file).map (·.rule) = ["leading-zero".toList, "comment".toList] ∧
      (∀ r ∈ all, r.name ≠ "leading-zero".toList →
        (sampleConfig true).get? r.name = (sampleConfig false).get? r.name) ∧
      (runAll (sampleConfig true) file).filter (·.rule ≠ "leading-zero".toList) =
        (runAll (sampleConfig false) file).filter (·.rule ≠ "leading-zero".toList) ∧
      find? "spelling".toList = none ∧
      runAll ((sampleConfig true).insert "spelling".toList (.flag true)) file =
        runAll (sampleConfig true) file := by
  have hrules : (File.read "a\x7bb:.5 0.5/* c */\x7d".toList).toOption.map
      (fun file => (runAll (sampleConfig true) file).map (·.rule)) =
        some ["leading-zero".toList, "comment".toList] := by
    decide +kernel
  have hothers : ∀ r ∈ all, r.name ≠ "leading-zero".toList →
      (sampleConfig true).get? r.name = (sampleConfig false).get? r.name := by
    decide
  have hnone : find? "spelling".toList = none := rfl
  cases hread : File.read "a\x7bb:.5 0.5/* c */\x7d".toList with
  | error e =>
    rw [hread] at hrules
    cases hrules
  | ok file =>
    rw [hread] at hrules
    obtain ⟨-, -, hcongr, hinsert⟩ := runAll_independent file
    exact ⟨file, rfl, Option.some.inj hrules, hothers, hcongr _ _ _ hothers, hnone,
      hinsert _ _ _ hnone⟩

end Rule

end LessStyle
