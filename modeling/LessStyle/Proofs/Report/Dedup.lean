import LessStyle.Diagnostic
import Mathlib.Data.List.Induction

/-!
# The first record of each key

`dedup` goes over the records once and carries the keys it has seen. What it leaves is told by the
records alone: a record stays if none before it has its key (`Diagnostic.IsFirst`).

Everything follows from one step. A record at the end stays or not by the records before it, and
changes nothing there (`Diagnostic.dedup_concat`). The keys that were seen matter only below that step,
in `Diagnostic.dedupFrom_concat`: a key is old if it was seen before all records or is that of one of
them.
-/

namespace LessStyle.Diagnostic

variable {d : Diagnostic} {ds es xs ys : List Diagnostic} {key : Text} {seen : List Text}

/-! ## Keys -/

/-- The keys of records, in their order. -/
def keys (ds : List Diagnostic) : List Text := ds.filterMap dedupKey

@[simp] theorem keys_append (ds es : List Diagnostic) : keys (ds ++ es) = keys ds ++ keys es :=
  List.filterMap_append

theorem mem_keys_cons : key ∈ keys (d :: ds) ↔ d.dedupKey = some key ∨ key ∈ keys ds := by
  simp [keys]

theorem dedupKey_eq_some_iff : d.dedupKey = some key ↔ d.key = some key ∧ key ≠ [] := by
  simp [dedupKey, Option.filter_eq_some_iff]

/-- The record has no key that is in `seen`. -/
def IsNew (seen : List Text) (d : Diagnostic) : Prop := ∀ key ∈ d.dedupKey, key ∉ seen

instance (seen : List Text) : DecidablePred (IsNew seen) := fun d =>
  inferInstanceAs (Decidable (∀ key ∈ d.dedupKey, key ∉ seen))

/-- The record has no key or an empty one, or none of the records `before` has its key. -/
def IsFirst (before : List Diagnostic) (d : Diagnostic) : Prop :=
  ∀ key ∈ d.key, key ≠ [] → ∀ e ∈ before, e.key ≠ some key

instance (before : List Diagnostic) : DecidablePred (IsFirst before) := fun d =>
  inferInstanceAs (Decidable (∀ key ∈ d.key, key ≠ [] → ∀ e ∈ before, e.key ≠ some key))

theorem isFirst_iff_isNew : IsFirst ds d ↔ IsNew (keys ds) d := by
  simp only [IsFirst, IsNew, keys, List.mem_filterMap, Option.mem_def, dedupKey_eq_some_iff]
  constructor
  · rintro h key ⟨hkey, hne⟩ ⟨e, he, hekey, -⟩
    exact h key hkey hne e he hekey
  · intro h key hkey hne e he hekey
    exact h key ⟨hkey, hne⟩ ⟨e, he, hekey, hne⟩

theorem isFirst_append : IsFirst (xs ++ ys) d ↔ IsFirst xs d ∧ IsFirst ys d := by
  simp only [isFirst_iff_isNew, IsNew, keys_append, List.mem_append, not_or]
  exact forall₂_and

/-- A record is still the first with its key if some of those before it are left out. -/
theorem IsFirst.mono (h : IsFirst ys d) (hsub : xs ⊆ ys) : IsFirst xs d :=
  fun key hkey hne e he => h key hkey hne e (hsub he)

/-! ## One more record -/

theorem dedupFrom_cons_of_isNew (h : IsNew seen d) (ds : List Diagnostic) :
    dedupFrom seen (d :: ds) = d :: dedupFrom (d.dedupKey.toList ++ seen) ds := by
  rw [dedupFrom]
  split
  · next key hkey =>
    rw [if_neg (by simpa using h key hkey), hkey]
    rfl
  · next hkey =>
    rw [hkey]
    rfl

theorem dedupFrom_cons_of_not_isNew (h : ¬ IsNew seen d) (ds : List Diagnostic) :
    dedupFrom seen (d :: ds) = dedupFrom seen ds := by
  simp only [IsNew, not_forall, not_not] at h
  obtain ⟨key, hkey, hseen⟩ := h
  rw [dedupFrom, Option.mem_def.1 hkey]
  exact if_pos (by simpa using hseen)

/-- A record at the end stays if its key was neither seen before nor is that of another record. -/
theorem dedupFrom_concat (seen : List Text) (ds : List Diagnostic) (d : Diagnostic) :
    dedupFrom seen (ds ++ [d]) =
      dedupFrom seen ds ++ [d].filter fun d => IsNew (seen ++ keys ds) d := by
  induction ds generalizing seen with
  | nil =>
    by_cases h : IsNew seen d
    · simp [dedupFrom_cons_of_isNew h, dedupFrom, keys, h]
    · simp [dedupFrom_cons_of_not_isNew h, dedupFrom, keys, h]
  | cons e ds ih =>
    rw [List.cons_append]
    by_cases h : IsNew seen e
    · -- the key of `e` goes from the records to what was seen
      rw [dedupFrom_cons_of_isNew h, dedupFrom_cons_of_isNew h, ih, List.cons_append]
      congr 3
      ext d
      simp only [IsNew, List.mem_append, mem_keys_cons, Option.mem_toList]
      grind
    · rw [dedupFrom_cons_of_not_isNew h, dedupFrom_cons_of_not_isNew h, ih]
      congr 2
      ext d
      simp only [IsNew, List.mem_append, mem_keys_cons] at h ⊢
      grind

/-- **One more record** stays exactly if it is the first with its key. -/
theorem dedup_concat (ds : List Diagnostic) (d : Diagnostic) :
    dedup (ds ++ [d]) = dedup ds ++ [d].filter fun d => IsFirst ds d := by
  simp only [dedup, dedupFrom_concat, isFirst_iff_isNew, List.nil_append]

/-! ## Consequences -/

theorem dedup_subset (ds : List Diagnostic) : dedup ds ⊆ ds := by
  induction ds using List.reverseRecOn with
  | nil => exact List.Subset.refl _
  | append_singleton ds d ih =>
    rw [dedup_concat]
    apply List.append_subset.2
    exact ⟨List.subset_append_of_subset_left _ ih,
      List.subset_append_of_subset_right _ List.filter_sublist.subset⟩

/-- The records that stay, by their places: each that is the first with its key. -/
theorem dedup_eq_filter_zipIdx (ds : List Diagnostic) :
    dedup ds = (ds.zipIdx.filter fun x => IsFirst (ds.take x.2) x.1).map Prod.fst := by
  induction ds using List.reverseRecOn with
  | nil => rfl
  | append_singleton ds d ih =>
    have hfront : (ds.zipIdx.filter fun x => IsFirst ((ds ++ [d]).take x.2) x.1) =
        ds.zipIdx.filter fun x => IsFirst (ds.take x.2) x.1 := by
      apply List.filter_congr
      intro x hx
      have hlt := (List.mem_zipIdx hx).2.1
      rw [List.take_append_of_le_length (by omega)]
    rw [dedup_concat, ih, List.zipIdx_append, List.filter_append, hfront, List.map_append]
    congr 1
    by_cases h : IsFirst ds d <;> simp [h]

theorem dedup_dedup (ds : List Diagnostic) : dedup (dedup ds) = dedup ds := by
  induction ds using List.reverseRecOn with
  | nil => rfl
  | append_singleton ds d ih =>
    rw [dedup_concat]
    by_cases h : IsFirst ds d
    · have h' := h.mono (dedup_subset ds)
      simp [h, h', dedup_concat, ih]
    · simp [h, ih]

/-- Of the records behind others those stay that would stay alone and whose keys are not among the
keys of the others. -/
theorem dedup_append (xs ys : List Diagnostic) :
    dedup (xs ++ ys) = dedup xs ++ (dedup ys).filter fun d => IsFirst xs d := by
  induction ys using List.reverseRecOn with
  | nil => simp [dedup, dedupFrom]
  | append_singleton ys d ih =>
    have hboth : [d].filter (fun d => IsFirst (xs ++ ys) d) =
        ([d].filter fun d => IsFirst ys d).filter fun d => IsFirst xs d := by
      simp only [List.filter_filter, isFirst_append, Bool.decide_and]
    rw [← List.append_assoc, dedup_concat, dedup_concat, ih, hboth, List.filter_append,
      List.append_assoc]

/-- Records with distinct keys all stay. -/
theorem dedup_of_nodup (h : (keys ds).Nodup) : dedup ds = ds := by
  induction ds using List.reverseRecOn with
  | nil => rfl
  | append_singleton ds d ih =>
    rw [keys_append, List.nodup_append] at h
    have hfirst : IsFirst ds d := by
      rw [isFirst_iff_isNew]
      intro key hkey hmem
      exact h.2.2 key hmem key (mem_keys_cons.2 (.inl hkey)) rfl
    simp [dedup_concat, ih h.1, hfirst]

/-- Distinct keys, doubles, and records without keys: the doubles are left out. -/
theorem dedup_append_append {us : List Diagnostic} (hds : (keys ds).Nodup)
    (hes : ∀ d ∈ es, ∃ key ∈ keys ds, d.dedupKey = some key) (hus : keys us = []) :
    dedup (ds ++ (es ++ us)) = ds ++ us := by
  have hdoubles : (dedup es).filter (fun d => IsFirst ds d) = [] := by
    apply List.filter_eq_nil_iff.2
    intro d hd
    obtain ⟨key, hmem, hkey⟩ := hes d (dedup_subset es hd)
    simpa [isFirst_iff_isNew] using fun h : IsNew (keys ds) d => h key hkey hmem
  have hkeyless : ∀ before, us.filter (fun d => IsFirst before d) = us := by
    intro before
    apply List.filter_eq_self.2
    intro d hd
    have hkey : d.dedupKey = none := List.filterMap_eq_nil_iff.1 hus d hd
    simp [isFirst_iff_isNew, IsNew, hkey]
  have hus' : dedup us = us := dedup_of_nodup (by simp [hus])
  rw [dedup_append, dedup_append, List.filter_append, dedup_of_nodup hds, hdoubles, hus',
    hkeyless, hkeyless, List.nil_append]

/-- **The first record of each key stays.** Leaving out doubles leaves, in their order, the records
without a key or with an empty one and those whose key no earlier record has. So nothing is left out a
second time, and behind other records those are left out besides whose key one of the others has. -/
theorem dedup_keeps_first (xs ys : List Diagnostic) :
    dedup xs = (xs.zipIdx.filter fun x => IsFirst (xs.take x.2) x.1).map Prod.fst ∧
      dedup (dedup xs) = dedup xs ∧
      dedup (xs ++ ys) = dedup xs ++ (dedup ys).filter fun d => IsFirst xs d :=
  ⟨dedup_eq_filter_zipIdx xs, dedup_dedup xs, dedup_append xs ys⟩

end LessStyle.Diagnostic
