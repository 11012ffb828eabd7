import LessStyle.Proofs.Rule.Session
import LessStyle.Report
import Mathlib.Algebra.GroupWithZero.Nat
import Mathlib.Logic.Relation

/-!
# Files checked side by side

The shares of a batch are nonempty runs of files, at most one for each job, and together they are the
files (`divided`). Each share has a `Worker`. It opens the next of its files, runs the rules on it one
after another with a session of that file, and puts down a report. In a `Pool` of workers any one of
them may take the next step.

A worker always has the same reports in view: those it has put down, that of the file it is at, and
those of the files still to come (`Worker.forecast`). No step changes that, so a pool comes to an end in
whatever order its workers take their steps, and its reports are those of the files one by one
(`checkBatch_sequential`).
-/

namespace LessStyle

/-! ## Shares -/

section Shares

variable {α : Type} {size : Nat}

theorem flatten_shares (size : Nat) (xs : List α) : (shares size xs).flatten = xs := by
  fun_induction shares size xs with
  | case1 => rfl
  | case2 x xs ih => rw [List.flatten_cons, ih, List.cons_append, List.take_append_drop]

/-- As many shares as it takes. -/
theorem length_shares_le {xs : List α} {n : Nat} (h : xs.length ≤ n * size) :
    (shares size xs).length ≤ n := by
  fun_induction shares size xs generalizing n with
  | case1 => exact Nat.zero_le n
  | case2 x xs ih =>
    rw [List.length_cons] at h
    obtain _ | n := n
    · omega
    · rw [Nat.succ_mul] at h
      rw [List.length_cons]
      refine Nat.succ_le_succ (ih ?_)
      rw [List.length_drop]
      omega

theorem ne_nil_of_mem_shares {xs share : List α} (h : share ∈ shares size xs) : share ≠ [] := by
  fun_induction shares size xs with
  | case1 => cases h
  | case2 x xs ih =>
    rcases List.mem_cons.1 h with rfl | h
    · exact List.cons_ne_nil _ _
    · exact ih h

theorem length_le_of_mem_shares {xs share : List α} (hsize : 0 < size)
    (h : share ∈ shares size xs) : share.length ≤ size := by
  fun_induction shares size xs with
  | case1 => cases h
  | case2 x xs ih =>
    rcases List.mem_cons.1 h with rfl | h
    · rw [List.length_cons, List.length_take]
      omega
    · exact ih h

/-- Rounding up leaves no file over. -/
theorem le_mul_shareSize (n jobs : Nat) : n ≤ max jobs 1 * shareSize n jobs := by
  have hjobs : 0 < max jobs 1 := by omega
  have hlt := Nat.lt_mul_div_succ (n + (max jobs 1 - 1)) hjobs
  rw [Nat.mul_succ] at hlt
  rw [shareSize]
  omega

end Shares

/-- A way to divide files among jobs. -/
structure Divided (jobs size : Nat) (files : List (Text × Text)) : Prop where
  /-- No file is left out, and none stands twice. -/
  covers : (shares size files).flatten = files
  few : (shares size files).length ≤ max jobs 1
  nonempty : ∀ share ∈ shares size files, share ≠ []
  /-- A share takes at least one file, and no more than its size. -/
  positive : files ≠ [] → 0 < size
  bounded : ∀ share ∈ shares size files, share.length ≤ size

theorem divided (jobs : Nat) (files : List (Text × Text)) :
    Divided jobs (shareSize files.length jobs) files := by
  have hle := le_mul_shareSize files.length jobs
  have hpos : files ≠ [] → 0 < shareSize files.length jobs := by
    intro hne
    refine Nat.pos_of_ne_zero fun hzero => hne (List.length_eq_zero_iff.1 ?_)
    rw [hzero] at hle
    omega
  refine ⟨flatten_shares _ files, length_shares_le hle, fun _ => ne_nil_of_mem_shares, hpos,
    fun share hshare => length_le_of_mem_shares (hpos ?_) hshare⟩
  rintro rfl
  rw [shares] at hshare
  cases hshare

/-! ## Reports -/

/-- Why a text cannot be read: it cannot be cut into tokens, or the tokens are not a sheet. -/
def Unreadable (s : Text) (e : SyntaxError) : Prop :=
  Token.tokenize s = .error e ∨ ∃ ts, Token.tokenize s = .ok ts ∧ Sheet.ofTokens ts = .error e

theorem File.read_eq_error_iff (s : Text) (e : SyntaxError) :
    File.read s = .error e ↔ Unreadable s e := by
  rw [File.read, Unreadable]
  cases htokens : Token.tokenize s with
  | error e' => simp
  | ok ts => cases hsheet : Sheet.ofTokens ts <;> simp [hsheet]

namespace FileReport

/-- A report on a file that cannot be read. -/
theorem of_eq_of_error {config : Config} {path source : Text} {e : SyntaxError}
    (h : File.read source.normalize = .error e) :
    FileReport.of config path source = ⟨path, [], some e⟩ := by
  rw [FileReport.of, check, h]

/-- A report on a file that can be read: the records of a session of its own. -/
theorem of_eq_of_ok {config : Config} {path source : Text} {file : File}
    (h : File.read source.normalize = .ok file) :
    FileReport.of config path source =
      ⟨path, Diagnostic.dedup (Session.run config file).records, none⟩ := by
  rw [FileReport.of, check, h, Session.records_run]

/-- What a report on a file says. -/
structure Reports (config : Config) (path source : Text) (r : FileReport) : Prop where
  path_eq : r.path = path
  /-- There is a fatal error exactly if the text cannot be read. -/
  fatal_iff : ∀ e, r.fatal = some e ↔ Unreadable source.normalize e
  /-- It then stands alone. -/
  alone : ∀ e, r.fatal = some e → r.diagnostics = [] ∧ r.sorted = [e.toDiagnostic]
  /-- The records of a file come from a session that begins and ends with it. -/
  own : ∀ file, File.read source.normalize = .ok file →
    r.diagnostics = Diagnostic.dedup (Session.run config file).records

theorem reports_of (config : Config) (path source : Text) :
    Reports config path source (FileReport.of config path source) := by
  cases hread : File.read source.normalize with
  | error e =>
    rw [of_eq_of_error hread]
    refine ⟨rfl, fun e' => ?_, fun e' he => ⟨rfl, ?_⟩, fun file hfile => ?_⟩
    · rw [← File.read_eq_error_iff, hread, Option.some.injEq, Except.error.injEq]
    · rw [sorted, he]
      exact List.mergeSort_singleton _
    · rw [hread] at hfile
      cases hfile
  | ok file =>
    rw [of_eq_of_ok hread]
    refine ⟨rfl, fun e => ?_, fun e he => (nomatch he), fun file' hfile => ?_⟩
    · rw [← File.read_eq_error_iff, hread]
      exact ⟨fun he => (nomatch he), fun he => (nomatch he)⟩
    · rw [hread] at hfile
      cases hfile
      rfl

end FileReport

/-! ## Workers -/

/-- A file that is being checked. -/
structure Task where
  path : Text
  file : File
  /-- The rules that have not had their turn. -/
  rules : List Rule
  session : Session

/-- What a worker has to do and has done. -/
structure Worker where
  todo : List (Text × Text)
  task : Option Task
  reports : List FileReport

/-- The report on a file, once all its rules have had their turns. -/
def Task.report (config : Config) (t : Task) : FileReport :=
  ⟨t.path, Diagnostic.dedup (Session.runRules config t.file t.session t.rules).records, none⟩

/-- The next step of a worker, if it is not through: it opens a file, lets a rule have its turn, or
puts down a report. -/
def Worker.step? (config : Config) : Worker → Option Worker
  | ⟨todo, some ⟨path, _, [], session⟩, reports⟩ =>
    some ⟨todo, none, reports ++ [⟨path, Diagnostic.dedup session.records, none⟩]⟩
  | ⟨todo, some ⟨path, file, r :: rules, session⟩, reports⟩ =>
    some ⟨todo, some ⟨path, file, rules, Session.runRules config file session [r]⟩, reports⟩
  | ⟨(path, source) :: todo, none, reports⟩ =>
    match File.read source.normalize with
    | .error e => some ⟨todo, none, reports ++ [⟨path, [], some e⟩]⟩
    | .ok file => some ⟨todo, some ⟨path, file, Rule.all, .start⟩, reports⟩
  | ⟨[], none, _⟩ => none

/-- A worker before its first step. -/
def Worker.start (share : List (Text × Text)) : Worker := ⟨share, none, []⟩

namespace Worker

variable {config : Config} {w w' : Worker}

/-- The reports that a worker will have put down in the end. -/
def forecast (config : Config) (w : Worker) : List FileReport :=
  w.reports ++ (w.task.map (Task.report config)).toList ++
    w.todo.map fun (path, source) => FileReport.of config path source

/-- How many steps a worker may still take. -/
def work (w : Worker) : Nat :=
  w.todo.length * (Rule.all.length + 2) + w.task.elim 0 (·.rules.length + 1)

/-- A step keeps the reports in view, and there is less left to do. -/
theorem forecast_step (h : w.step? config = some w') :
    w'.forecast config = w.forecast config ∧ w'.work < w.work := by
  obtain ⟨todo, _ | ⟨path, file, _ | ⟨r, rules⟩, session⟩, reports⟩ := w
  · obtain _ | ⟨⟨path, source⟩, todo⟩ := todo
    · cases h
    · rw [step?] at h
      cases hread : File.read source.normalize with
      | error e =>
        rw [hread] at h
        obtain rfl := Option.some.inj h
        constructor
        · simp [forecast, FileReport.of_eq_of_error hread]
        · simp [work, Nat.succ_mul]
      | ok file =>
        rw [hread] at h
        obtain rfl := Option.some.inj h
        constructor
        · -- all rules are still to have their turns, in a fresh session
          have htask : Task.report config ⟨path, file, Rule.all, .start⟩ =
              FileReport.of config path source := (FileReport.of_eq_of_ok hread).symm
          simp [forecast, htask]
        · simp only [work, List.length_cons, Nat.succ_mul, Option.elim_some, Option.elim_none]
          omega
  · obtain rfl := Option.some.inj h
    constructor
    · simp [forecast, Task.report, Session.runRules]
    · simp [work]
  · obtain rfl := Option.some.inj h
    constructor
    · simp [forecast, Task.report, Session.runRules]
    · simp [work]

/-- A worker that cannot go on has put down all its reports. -/
theorem reports_of_step?_eq_none (h : w.step? config = none) : w.reports = w.forecast config := by
  obtain ⟨todo, _ | ⟨path, file, _ | ⟨r, rules⟩, session⟩, reports⟩ := w
  · obtain _ | ⟨⟨path, source⟩, todo⟩ := todo
    · simp [forecast]
    · rw [step?] at h
      split at h <;> cases h
  · cases h
  · cases h

end Worker

/-! ## Pools -/

/-- Workers side by side, in the order of their shares. -/
abbrev Pool := List Worker

namespace Pool

/-- Any one worker takes its next step. -/
inductive Step (config : Config) : Pool → Pool → Prop where
  | take {left right : Pool} {w w' : Worker} (next : w.step? config = some w') :
      Step config (left ++ w :: right) (left ++ w' :: right)

/-- A worker for each share. -/
def start (parts : List (List (Text × Text))) : Pool := parts.map Worker.start

/-- The reports put down so far, in the order of the workers. -/
def reports (pool : Pool) : List FileReport := pool.flatMap Worker.reports

variable {config : Config} {p q : Pool}

theorem forecast_step (h : Step config p q) :
    q.flatMap (Worker.forecast config) = p.flatMap (Worker.forecast config) ∧
      (q.map Worker.work).sum < (p.map Worker.work).sum := by
  cases h with
  | take next =>
    obtain ⟨hforecast, hwork⟩ := Worker.forecast_step next
    constructor
    · simp only [List.flatMap_append, List.flatMap_cons, hforecast]
    · simp only [List.map_append, List.map_cons, List.sum_append, List.sum_cons]
      omega

/-- Whatever order the workers take their steps in, the reports in view stay. -/
theorem forecast_run (h : Relation.ReflTransGen (Step config) p q) :
    q.flatMap (Worker.forecast config) = p.flatMap (Worker.forecast config) := by
  induction h with
  | refl => rfl
  | tail _ step ih => rw [(forecast_step step).1, ih]

/-- A pool that cannot go on has all its reports. -/
theorem reports_of_forall_not_step (h : ∀ q, ¬ Step config p q) :
    reports p = p.flatMap (Worker.forecast config) := by
  refine List.flatMap_congr fun w hw => Worker.reports_of_step?_eq_none ?_
  obtain ⟨left, right, rfl⟩ := List.append_of_mem hw
  cases hnext : w.step? config with
  | none => rfl
  | some w' => exact absurd (Step.take hnext) (h _)

theorem forecast_start (config : Config) (parts : List (List (Text × Text))) :
    (start parts).flatMap (Worker.forecast config) =
      parts.flatten.map fun (path, source) => FileReport.of config path source := by
  rw [start, List.flatMap_map, List.map_flatten, List.flatMap_def]
  rfl

/-- However its workers take turns, a pool comes to an end, and then has these reports. -/
structure Settles (config : Config) (pool : Pool) (rs : List FileReport) : Prop where
  ends : Acc (fun q p => Step config p q) pool
  reports_eq : ∀ q, Relation.ReflTransGen (Step config) pool q → (∀ r, ¬ Step config q r) →
    reports q = rs

theorem acc (config : Config) (p : Pool) : Acc (fun q p => Step config p q) p :=
  Subrelation.accessible (fun h => (forecast_step h).2)
    (InvImage.accessible (fun p : Pool => (p.map Worker.work).sum) (Nat.lt_wfRel.wf.apply _))

theorem settles_start (config : Config) (parts : List (List (Text × Text))) :
    Settles config (start parts)
      (parts.flatten.map fun (path, source) => FileReport.of config path source) := by
  refine ⟨acc config _, fun q hrun hend => ?_⟩
  rw [reports_of_forall_not_step hend, forecast_run hrun, forecast_start]

end Pool

/-- **A batch is checked as its files are checked one by one.** The reports are those of the single
files in their order, for any number of jobs; each says what the text of its own file makes it say. The
shares are nonempty runs of the files, at most one for each job, and workers that check them with steps
in any order come to these reports. -/
theorem checkBatch_sequential (config : Config) (jobs : Nat) (files : List (Text × Text)) :
    checkBatch config jobs files =
        files.map (fun (path, source) => FileReport.of config path source) ∧
      Divided jobs (shareSize files.length jobs) files ∧
      Pool.Settles config (Pool.start (shares (shareSize files.length jobs) files))
        (checkBatch config jobs files) ∧
      ∀ path source, FileReport.Reports config path source (FileReport.of config path source) := by
  have hbatch : checkBatch config jobs files =
      files.map fun (path, source) => FileReport.of config path source := by
    rw [checkBatch, List.flatMap_def, ← List.map_flatten, flatten_shares]
  refine ⟨hbatch, divided jobs files, ?_, FileReport.reports_of config⟩
  have hsettles := Pool.settles_start config (shares (shareSize files.length jobs) files)
  rwa [flatten_shares, ← hbatch] at hsettles

end LessStyle
