import LessStyle.Proofs.Rule.Run

/-!
# One record for a line

Some rules report at most once on a line, and to do so they keep only the line of their last finding in
mind (`Finding.onePerLine`). That is enough where the lines of the findings never go back: then each
line has its first finding and no other (`Finding.mem_onePerLine_iff`).

`Diagnostic.OncePerLine` says the same of the records of such a rule, against what it looks for: things
in some order, which can offend on lines. `Diagnostic.oncePerLine_flatMap` derives it from what the
rule finds on one thing.
-/

namespace LessStyle

namespace Finding

variable {last : Nat} {f : Finding} {fs : List Finding}

theorem onePerLine_subset (last : Nat) (fs : List Finding) : onePerLine last fs ⊆ fs := by
  induction fs generalizing last with
  | nil => exact List.Subset.refl _
  | cons f fs ih =>
    rw [onePerLine]
    split
    · exact List.subset_cons_of_subset f (ih last)
    · exact List.cons_subset_cons f (ih f.line)

/-- The first finding on a line stays, in whatever order the lines come. -/
theorem mem_onePerLine_of_first {before after : List Finding} (hlast : last ≠ f.line)
    (hfirst : ∀ g ∈ before, g.line ≠ f.line) : f ∈ onePerLine last (before ++ f :: after) := by
  induction before generalizing last with
  | nil =>
    rw [List.nil_append, onePerLine, if_neg hlast.symm]
    exact List.mem_cons_self
  | cons g before ih =>
    obtain ⟨hg, hbefore⟩ := List.forall_mem_cons.1 hfirst
    rw [List.cons_append, onePerLine]
    split
    · exact ih hlast hbefore
    · exact List.mem_cons_of_mem _ (ih hg hbefore)

/-- Where the lines never go back, the lines that stay go forward. -/
theorem pairwise_onePerLine (hsorted : fs.Pairwise (·.line ≤ ·.line))
    (hlast : ∀ f ∈ fs, last ≤ f.line) :
    ((onePerLine last fs).map (·.line)).Pairwise (· < ·) ∧
      ∀ f ∈ onePerLine last fs, last < f.line := by
  induction fs generalizing last with
  | nil => exact ⟨.nil, by simp [onePerLine]⟩
  | cons f fs ih =>
    obtain ⟨hf, hfs⟩ := List.forall_mem_cons.1 hlast
    obtain ⟨hle, hsorted⟩ := List.pairwise_cons.1 hsorted
    rw [onePerLine]
    split
    · exact ih hsorted hfs
    · next hne =>
      obtain ⟨hpairwise, hlt⟩ := ih hsorted hle
      refine ⟨List.pairwise_cons.2 ⟨List.forall_mem_map.2 hlt, hpairwise⟩, ?_⟩
      intro g hg
      rcases List.mem_cons.1 hg with rfl | hg
      · exact Nat.lt_of_le_of_ne hf (Ne.symm hne)
      · exact Nat.lt_of_le_of_lt hf (hlt g hg)

/-- A line with a finding has a first one. -/
theorem exists_first (hf : f ∈ fs) : ∃ g, fs.find? (·.line = g.line) = some g ∧ g.line = f.line := by
  have hsome : (fs.find? (·.line = f.line)).isSome := List.find?_isSome.2 ⟨f, hf, by simp⟩
  obtain ⟨g, hg⟩ := Option.isSome_iff_exists.1 hsome
  have hline : g.line = f.line := by simpa using List.find?_some hg
  exact ⟨g, by rwa [hline], hline⟩

/-- **The findings that stay are the first ones on their lines**, where the lines never go back. -/
theorem mem_onePerLine_iff (hsorted : fs.Pairwise (·.line ≤ ·.line))
    (hlast : ∀ f ∈ fs, last < f.line) :
    f ∈ onePerLine last fs ↔ fs.find? (·.line = f.line) = some f := by
  have hkept : ∀ {f}, fs.find? (·.line = f.line) = some f → f ∈ onePerLine last fs := by
    intro f hfind
    have hlt := hlast f (List.mem_of_find?_eq_some hfind)
    obtain ⟨-, before, after, rfl, hbefore⟩ := List.find?_eq_some_iff_append.1 hfind
    exact mem_onePerLine_of_first (Nat.ne_of_lt hlt) fun g hg => by simpa using hbefore g hg
  refine ⟨fun hmem => ?_, hkept⟩
  obtain ⟨g, hg, hline⟩ := exists_first (onePerLine_subset last fs hmem)
  -- both stay, and no two that stay are on one line
  have hnodup := (pairwise_onePerLine hsorted fun f hf => Nat.le_of_lt (hlast f hf)).1.imp Nat.ne_of_lt
  obtain rfl : g = f := List.inj_on_of_nodup_map hnodup (hkept hg) hmem hline
  exact hg

end Finding

namespace Diagnostic

variable {α β : Type}

/-- Records on things that come in the order `xs`. A thing `x` can offend on a line, `Offends x line b`,
with some data `b` that a record can show. The records are on the lines on which something offends, on
one after another, and each shows the offence of the first thing that offends on its line. -/
structure OncePerLine (xs : List α) (Offends : α → Nat → β → Prop) (Shows : β → Diagnostic → Prop)
    (ds : List Diagnostic) : Prop where
  increasing : (ds.map (·.line)).Pairwise (· < ·)
  mem_lines_iff : ∀ line, line ∈ ds.map (·.line) ↔ ∃ x ∈ xs, ∃ b, Offends x line b
  first : ∀ d ∈ ds, ∃ before x after b, xs = before ++ x :: after ∧
    (∀ y ∈ before, ∀ c, ¬ Offends y d.line c) ∧ (∀ c, Offends x d.line c ↔ c = b) ∧ Shows b d

/-- The records of a rule that goes over things, finds where each offends, and keeps one finding for a
line. -/
theorem oncePerLine_flatMap {xs : List α} {Offends : α → Nat → β → Prop}
    {Shows : β → Diagnostic → Prop} {name : Text} {g : α → List Finding}
    (hsorted : (xs.flatMap g).Pairwise (·.line ≤ ·.line))
    (hpos : ∀ x ∈ xs, ∀ f ∈ g x, 0 < f.line)
    (hunique : ∀ x ∈ xs, ∀ line b c, Offends x line b → Offends x line c → c = b)
    (hfinds : ∀ x ∈ xs, ∀ line b, Offends x line b → ∃ f ∈ g x, f.line = line)
    (hfound : ∀ x ∈ xs, ∀ f ∈ g x, ∃ b, Offends x f.line b ∧ Shows b (f.toDiagnostic name)) :
    OncePerLine xs Offends Shows
      ((Finding.onePerLine 0 (xs.flatMap g)).map (·.toDiagnostic name)) := by
  have hlast : ∀ f ∈ xs.flatMap g, 0 < f.line := by
    intro f hf
    obtain ⟨x, hx, hf⟩ := List.mem_flatMap.1 hf
    exact hpos x hx f hf
  have hlines : ((Finding.onePerLine 0 (xs.flatMap g)).map (·.toDiagnostic name)).map (·.line) =
      (Finding.onePerLine 0 (xs.flatMap g)).map (·.line) := List.map_map
  refine ⟨?_, fun line => ⟨fun hline => ?_, ?_⟩, fun d hd => ?_⟩
  · rw [hlines]
    exact (Finding.pairwise_onePerLine hsorted fun f hf => Nat.le_of_lt (hlast f hf)).1
  · rw [hlines] at hline
    obtain ⟨f, hf, rfl⟩ := List.mem_map.1 hline
    obtain ⟨x, hx, hf⟩ := List.mem_flatMap.1 (Finding.onePerLine_subset _ _ hf)
    obtain ⟨b, hoffends, -⟩ := hfound x hx f hf
    exact ⟨x, hx, b, hoffends⟩
  · rintro ⟨x, hx, b, hoffends⟩
    obtain ⟨f, hf, rfl⟩ := hfinds x hx line b hoffends
    obtain ⟨f', hfind, hline⟩ := Finding.exists_first (List.mem_flatMap.2 ⟨x, hx, hf⟩)
    rw [hlines, ← hline]
    exact List.mem_map_of_mem ((Finding.mem_onePerLine_iff hsorted hlast).2 hfind)
  · obtain ⟨f, hf, rfl⟩ := List.mem_map.1 hd
    -- the first finding on the line is on the first thing that has one there
    have hfind := (Finding.mem_onePerLine_iff hsorted hlast).1 hf
    rw [List.find?_flatMap] at hfind
    obtain ⟨before, x, after, hxs, hx, hbefore⟩ := List.findSome?_eq_some_iff.1 hfind
    have hmem : x ∈ xs := by simp [hxs]
    obtain ⟨b, hoffends, hshows⟩ := hfound x hmem f (List.mem_of_find?_eq_some hx)
    refine ⟨before, x, after, b, hxs, fun y hy c hc => ?_, fun c => ⟨?_, ?_⟩, hshows⟩
    · obtain ⟨f', hf', hline⟩ := hfinds y (by simp [hxs, hy]) f.line c hc
      exact List.find?_eq_none.1 (hbefore y hy) f' hf' (by simpa using hline)
    · exact hunique x hmem f.line b c hoffends
    · rintro rfl
      exact hoffends

end Diagnostic

end LessStyle
