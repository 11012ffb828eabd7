import LessStyle.Proofs.Rule.Run
import LessStyle.Report

/-!
# Line breaks of a checked text

A text is normalized by two replacements over the whole of it: of every `\r\n`, and then of every `\r`
that is left. The first can leave a `\r` before a `\n` that it has just written, as in `\r\r\n`, but the
second takes each `\r` alone (`replace_singleton`), so both together do what one pass over the text does
(`replace_breaks`). The pass undoes every uniform way to write the line breaks of a text
(`unifyBreaks_writeBreaks`), and with them the records of a check do not change.
-/

namespace LessStyle

namespace Text

/-! ## Replacing -/

theorem replace_of_isPrefixOf {needle s : Text} {c : Char} (new : Text) (h : needle <+: c :: s) :
    replace needle new (c :: s) = new ++ replace needle new (s.drop (needle.length - 1)) := by
  rw [replace, if_pos (List.isPrefixOf_iff_prefix.2 h)]

theorem replace_of_not_isPrefixOf {needle s : Text} {c : Char} (new : Text) (h : ¬ needle <+: c :: s) :
    replace needle new (c :: s) = c :: replace needle new s := by
  rw [replace, if_neg (mt List.isPrefixOf_iff_prefix.1 h)]

/-- A character is replaced wherever it stands. -/
theorem replace_singleton (a b : Char) (s : Text) :
    replace [a] [b] s = s.map fun c => if c = a then b else c := by
  induction s with
  | nil => rw [replace, List.map_nil]
  | cons c s ih =>
    rw [List.map_cons, ← ih]
    by_cases hc : c = a
    · rw [replace_of_isPrefixOf [b] (by simp [hc]), if_pos hc]
      rfl
    · rw [replace_of_not_isPrefixOf [b] (by simp [Ne.symm hc]), if_neg hc]

/-! ## One pass -/

/-- One pass over a text from left to right: each `\r\n`, and each other `\r`, becomes one `\n`. Every
other character is kept, also a `\n`. -/
def unifyBreaks : Text → Text
  | [] => []
  | '\r' :: '\n' :: s => '\n' :: unifyBreaks s
  | '\r' :: s => '\n' :: unifyBreaks s
  | c :: s => c :: unifyBreaks s

theorem unifyBreaks_lone {s : Text} (h : s.head? ≠ some '\n') :
    unifyBreaks ('\r' :: s) = '\n' :: unifyBreaks s := by
  refine unifyBreaks.eq_3 s fun t ht => h ?_
  rw [ht, List.head?_cons]

theorem unifyBreaks_cons {c : Char} (hc : c ≠ '\r') (s : Text) :
    unifyBreaks (c :: s) = c :: unifyBreaks s :=
  unifyBreaks.eq_4 c s (fun _ heq _ => hc heq) hc

/-- **Two replacements are one pass.** -/
theorem replace_breaks (s : Text) :
    replace ['\r'] ['\n'] (replace ['\r', '\n'] ['\n'] s) = unifyBreaks s := by
  rw [replace_singleton]
  fun_induction unifyBreaks s with
  | case1 => rw [replace, List.map_nil]
  | case2 s ih =>
    rw [replace_of_isPrefixOf ['\n'] (by simp), List.singleton_append, List.map_cons,
      if_neg (by decide), ← ih]
    rfl
  | case3 s hs ih =>
    -- no line feed follows, so the first replacement leaves the character
    have hpair : ¬ ['\r', '\n'] <+: '\r' :: s := by
      rintro ⟨t, ht⟩
      exact hs t (List.cons.inj ht).2.symm
    rw [replace_of_not_isPrefixOf ['\n'] hpair, List.map_cons, if_pos rfl, ih]
  | case4 c s _ hc ih =>
    have hc : c ≠ '\r' := fun heq => hc heq
    rw [replace_of_not_isPrefixOf ['\n'] (by simp [Ne.symm hc]), List.map_cons, if_neg hc, ih]

theorem unifyBreaks_eq_self {s : Text} (h : '\r' ∉ s) : unifyBreaks s = s := by
  induction s with
  | nil => rfl
  | cons c s ih =>
    rw [List.mem_cons, not_or] at h
    rw [unifyBreaks_cons (Ne.symm h.1), ih h.2]

/-- **Normalizing is one pass** behind a byte-order mark. -/
theorem normalize_eq (s : Text) : normalize s = unifyBreaks (withoutMark s) := by
  unfold normalize
  dsimp only
  split
  · exact replace_breaks _
  · next hreturn => exact (unifyBreaks_eq_self (by simpa using hreturn)).symm

theorem return_notMem_unifyBreaks (s : Text) : '\r' ∉ unifyBreaks s := by
  rw [← replace_breaks, replace_singleton, List.mem_map]
  rintro ⟨c, -, hc⟩
  split at hc
  · cases hc
  · next hne => exact hne hc

theorem withoutMark_of_head? {s : Text} (h : s.head? ≠ some '\uFEFF') : withoutMark s = s := by
  cases s with
  | nil => rfl
  | cons c s =>
    have hc : ¬ (c == '\uFEFF') = true := by simpa using h
    exact if_neg hc

/-! ## Writing line breaks -/

/-- The ways to write a line break. -/
def breaks : List Text := [['\n'], ['\r', '\n'], ['\r']]

/-- The text with its line breaks written as `br`. -/
def writeBreaks (br s : Text) : Text := s.flatMap fun c => if c = '\n' then br else [c]

theorem writeBreaks_break (br s : Text) :
    writeBreaks br ('\n' :: s) = br ++ writeBreaks br s := by
  rw [writeBreaks, List.flatMap_cons, if_pos rfl]
  rfl

theorem writeBreaks_cons {c : Char} (hc : c ≠ '\n') (br s : Text) :
    writeBreaks br (c :: s) = c :: writeBreaks br s := by
  rw [writeBreaks, List.flatMap_cons, if_neg hc]
  rfl

/-- Without line feeds in the way a line break is written, none is left. -/
theorem break_notMem_writeBreaks {br : Text} (hbr : '\n' ∉ br) (s : Text) :
    '\n' ∉ writeBreaks br s := by
  rw [writeBreaks, List.mem_flatMap]
  rintro ⟨c, -, hmem⟩
  split at hmem
  · exact hbr hmem
  · next hc => exact hc (List.mem_singleton.1 hmem).symm

/-- **The pass undoes a uniform way to write line breaks.** -/
theorem unifyBreaks_writeBreaks {br s : Text} (hbr : br ∈ breaks) (h : '\r' ∉ s) :
    unifyBreaks (writeBreaks br s) = s := by
  induction s with
  | nil => rfl
  | cons c s ih =>
    rw [List.mem_cons, not_or] at h
    have ih := ih h.2
    by_cases hc : c = '\n'
    · subst hc
      rw [writeBreaks_break]
      simp only [breaks, List.mem_cons, List.not_mem_nil, or_false] at hbr
      rcases hbr with rfl | rfl | rfl
      · rw [List.singleton_append, unifyBreaks_cons (by decide), ih]
      · exact congrArg _ ih
      · -- the next break is written without a line feed as well, so the return stands alone
        have hhead : (writeBreaks ['\r'] s).head? ≠ some '\n' := fun hhead =>
          break_notMem_writeBreaks (by decide) s (List.mem_of_mem_head? hhead)
        rw [List.singleton_append, unifyBreaks_lone hhead, ih]
    · rw [writeBreaks_cons hc, unifyBreaks_cons (Ne.symm h.1), ih]

/-- No way to write line breaks puts a byte-order mark in front. -/
theorem head?_writeBreaks {br s : Text} (hbr : br ∈ breaks) (h : s.head? ≠ some '\uFEFF') :
    (writeBreaks br s).head? ≠ some '\uFEFF' := by
  cases s with
  | nil => simp [writeBreaks]
  | cons c s =>
    by_cases hc : c = '\n'
    · subst hc
      rw [writeBreaks_break]
      simp only [breaks, List.mem_cons, List.not_mem_nil, or_false] at hbr
      rcases hbr with rfl | rfl | rfl <;> simp
    · rw [writeBreaks_cons hc, List.head?_cons]
      exact h

theorem normalize_writeBreaks {br mark s : Text} (hbr : br ∈ breaks) (hmark : mark ∈ [[], ['\uFEFF']])
    (hreturn : '\r' ∉ s) (hhead : s.head? ≠ some '\uFEFF') :
    normalize (mark ++ writeBreaks br s) = s := by
  have hwithout : withoutMark (mark ++ writeBreaks br s) = writeBreaks br s := by
    simp only [List.mem_cons, List.not_mem_nil, or_false] at hmark
    rcases hmark with rfl | rfl
    · exact withoutMark_of_head? (head?_writeBreaks hbr hhead)
    · rfl
  rw [normalize_eq, hwithout, unifyBreaks_writeBreaks hbr hreturn]

end Text

open Text

/-- **Line breaks and byte-order marks do not count.** A text is normalized to what one pass makes of it
behind a byte-order mark, if there is one, and has no `\r` then. So a text without `\r` and without such
a mark is checked with the same result, however its line breaks are all written, with a mark in front
or without. -/
theorem check_writeBreaks :
    (∀ s, normalize ('\uFEFF' :: s) = unifyBreaks s) ∧
      (∀ s, s.head? ≠ some '\uFEFF' → normalize s = unifyBreaks s) ∧
      (∀ s, '\r' ∉ normalize s) ∧
      ∀ s, '\r' ∉ s → s.head? ≠ some '\uFEFF' →
        ∀ br ∈ [['\n'], ['\r', '\n'], ['\r']], ∀ mark ∈ [[], ['\uFEFF']], ∀ config,
          check config (mark ++ writeBreaks br s) = check config s := by
  refine ⟨fun s => normalize_eq _, fun s hs => ?_, fun s => ?_, ?_⟩
  · rw [normalize_eq, withoutMark_of_head? hs]
  · rw [normalize_eq]
    exact return_notMem_unifyBreaks _
  · intro s hreturn hhead br hbr mark hmark config
    have hself : normalize s = s := by
      rw [normalize_eq, withoutMark_of_head? hhead, unifyBreaks_eq_self hreturn]
    rw [check, check, normalize_writeBreaks hbr hmark hreturn hhead, hself]

theorem check_writeBreaks_double :
    normalize "\r\r\n\n".toList = "\n\n\n".toList ∧
      (check (Config.only "zero-unit".toList (.flag true))
        "\uFEFFa \x7b\r\rb: 0px\x7d".toList).toOption.map (·.map (·.line)) = some [3] ∧
      check (Config.only "zero-unit".toList (.flag true)) "\uFEFFa \x7b\r\rb: 0px\x7d".toList =
        check (Config.only "zero-unit".toList (.flag true)) "a \x7b\n\nb: 0px\x7d".toList := by
  refine ⟨?_, by decide +kernel, ?_⟩
  · rw [check_writeBreaks.2.1 _ (by decide)]
    rfl
  · have hwritten : "\uFEFFa \x7b\r\rb: 0px\x7d".toList =
        ['\uFEFF'] ++ writeBreaks ['\r'] "a \x7b\n\nb: 0px\x7d".toList := by decide
    rw [hwritten]
    exact check_writeBreaks.2.2.2 _ (by decide) (by decide) _ (by decide) _ (by decide) _

end LessStyle
