import LessStyle.Rule.Registry
import Mathlib.Data.List.Nodup

/-!
# Runs of the rules

A configuration runs the rules that it gives an enabled setting (`Rule.configured`). The names of the
rules are distinct, so the setting under a name concerns one rule, and the records of a run tell by
their names which rule they are from.
-/

namespace LessStyle

/-- The setting under a name, if it is enabled. -/
def Config.enabled? (config : Config) (name : Text) : Option Setting :=
  (config.get? name).filter Setting.isEnabled

/-- The configuration with one setting. -/
def Config.only (name : Text) (setting : Setting) : Config := Config.empty.insert name setting

theorem Config.enabled?_congr {config config' : Config} {name : Text}
    (h : config.get? name = config'.get? name) : config.enabled? name = config'.enabled? name := by
  rw [enabled?, enabled?, h]

theorem Config.enabled?_only_of_ne {name other : Text} (setting : Setting) (h : other ≠ name) :
    (Config.only name setting).enabled? other = none := by
  rw [enabled?, only, Dict.get?_insert_of_ne _ _ h]
  rfl

theorem Config.enabled?_only {config : Config} {name : Text} {setting : Setting}
    (h : config.enabled? name = some setting) :
    (Config.only name setting).enabled? name = some setting := by
  rw [enabled?, only, Dict.get?_insert_self]
  exact (Option.filter_eq_some_iff.2 ⟨rfl, (Option.filter_eq_some_iff.1 h).2⟩)

namespace Rule

variable {config config' : Config} {file : File} {r : Rule}

theorem run_eq (r : Rule) (config : Config) (file : File) :
    r.run config file = (config.enabled? r.name).elim [] (r.apply · file) := by
  unfold run Config.enabled?
  cases config.get? r.name with
  | none => rfl
  | some s => cases h : s.isEnabled <;> simp [h, Option.filter]

/-- A run reads nothing of the configuration but the setting under the name of the rule. -/
theorem run_congr (h : config.enabled? r.name = config'.enabled? r.name) :
    r.run config file = r.run config' file := by
  rw [run_eq, run_eq, h]

/-- The records of a run carry the name of the rule. -/
theorem rule_of_mem_run {d : Diagnostic} (h : d ∈ r.run config file) : d.rule = r.name := by
  rw [run_eq] at h
  cases hs : config.enabled? r.name with
  | none => simp [hs] at h
  | some s =>
    rw [hs] at h
    obtain ⟨f, -, rfl⟩ := List.mem_map.1 h
    rfl

theorem filter_run_of_ne {name : Text} (h : r.name ≠ name) :
    (r.run config file).filter (·.rule ≠ name) = r.run config file :=
  List.filter_eq_self.2 fun d hd => by simpa [rule_of_mem_run hd] using h

theorem filter_run_of_eq {name : Text} (h : r.name = name) :
    (r.run config file).filter (·.rule ≠ name) = [] :=
  List.filter_eq_nil_iff.2 fun d hd => by simp [rule_of_mem_run hd, h]

/-- The rules have different names. -/
theorem nodup_names : (all.map name).Nodup := by decide

theorem eq_of_name_eq {q : Rule} (hr : r ∈ all) (hq : q ∈ all) (h : r.name = q.name) : r = q :=
  List.inj_on_of_nodup_map nodup_names hr hq h

/-- The rules that a configuration enables, in the order they run, with their settings. -/
def configured (config : Config) : List (Rule × Setting) :=
  all.filterMap fun r => (config.enabled? r.name).map (r, ·)

/-- Where all other rules give nothing, one rule gives all. -/
theorem flatMap_all {α : Type} {f : Rule → List α} (hr : r ∈ all)
    (h : ∀ q ∈ all, q.name ≠ r.name → f q = []) : all.flatMap f = f r := by
  obtain ⟨rs, rs', hall⟩ := List.append_of_mem hr
  have hnames := nodup_names
  rw [hall, List.map_append, List.map_cons, List.nodup_middle, List.nodup_cons, List.mem_append,
    not_or] at hnames
  obtain ⟨⟨hbefore, hafter⟩, -⟩ := hnames
  have hnil : ∀ qs : List Rule, qs ⊆ all → r.name ∉ qs.map name → qs.flatMap f = [] := by
    intro qs hsub hqs
    refine List.flatMap_eq_nil_iff.2 fun q hq => h q (hsub hq) ?_
    exact fun heq => hqs (heq ▸ List.mem_map_of_mem hq)
  rw [hall, List.flatMap_append, List.flatMap_cons, hnil rs (by simp [hall]) hbefore,
    hnil rs' (by simp [hall]) hafter]
  simp

/-- A configuration with one setting runs one rule. -/
theorem runAll_only {setting : Setting} (hr : r ∈ all)
    (h : config.enabled? r.name = some setting) :
    runAll (Config.only r.name setting) file = r.apply setting file := by
  have hother : ∀ q ∈ all, q.name ≠ r.name → q.run (Config.only r.name setting) file = [] := by
    intro q _ hne
    rw [run_eq, Config.enabled?_only_of_ne setting hne]
    rfl
  rw [runAll, flatMap_all hr hother, run_eq, Config.enabled?_only h]
  rfl

/-- The records of one rule in a run. -/
theorem filter_runAll_eq_apply {setting : Setting} (hr : r ∈ all)
    (h : config.enabled? r.name = some setting) :
    (runAll config file).filter (·.rule = r.name) = r.apply setting file := by
  have hother : ∀ q ∈ all, q.name ≠ r.name →
      (q.run config file).filter (·.rule = r.name) = [] := by
    intro q _ hne
    refine List.filter_eq_nil_iff.2 fun d hd => ?_
    simpa [rule_of_mem_run hd] using hne
  have hown : (r.run config file).filter (·.rule = r.name) = r.run config file :=
    List.filter_eq_self.2 fun d hd => by simpa using rule_of_mem_run hd
  rw [runAll, List.filter_flatMap, flatMap_all hr hother, hown, run_eq, h]
  rfl

theorem filter_runAll_onSheet {name : String} {findings : Page → Sheet → List Finding}
    {setting : Setting} (hr : onSheet name findings ∈ all)
    (h : config.enabled? name.toList = some setting) :
    (runAll config file).filter (·.rule = name.toList) =
      (findings file.page file.sheet).map (·.toDiagnostic name.toList) :=
  filter_runAll_eq_apply hr h

/-- The records of a run are those of the configured rules, each run alone. -/
theorem runAll_eq_flatMap (config : Config) (file : File) :
    runAll config file =
      (configured config).flatMap fun (r, setting) => runAll (Config.only r.name setting) file := by
  rw [configured, List.filterMap_eq_flatMap_toList, List.flatMap_assoc, runAll]
  refine List.flatMap_congr fun r hr => ?_
  rw [run_eq]
  cases h : config.enabled? r.name with
  | none => rfl
  | some s => simp [runAll_only hr h]

/-- Without the records of one rule, a run depends on the settings of the others only. -/
theorem filter_runAll_congr {name : Text}
    (h : ∀ r ∈ all, r.name ≠ name → config.get? r.name = config'.get? r.name) :
    (runAll config file).filter (·.rule ≠ name) = (runAll config' file).filter (·.rule ≠ name) := by
  rw [runAll, runAll, List.filter_flatMap, List.filter_flatMap]
  refine List.flatMap_congr fun r hr => ?_
  by_cases hname : r.name = name
  · rw [filter_run_of_eq hname, filter_run_of_eq hname]
  · rw [run_congr (Config.enabled?_congr (h r hr hname))]

end Rule

end LessStyle
