import LessStyle.Proofs.Text.Utf8
import LessStyle.Proofs.Value.Part
import LessStyle.Rule.Number

/-!
# The pieces of a value that may be numbers

A part of a value with parentheses gives its arguments, and any other part gives itself. The offset of
an argument is put together from the offset of the part, the place of its first parenthesis, and the
offset in the text between the parentheses. So the argument stands in the part
(`standsIn_argumentsOf`), and the pieces that lie in a part are those that it gives
(`filter_candidates`).
-/

namespace LessStyle

open Text

/-- The piece `q` lies in the piece `p`. -/
def Part.Holds (p q : Part) : Prop := p.offset ≤ q.offset ∧ q.stop ≤ p.stop

instance (p q : Part) : Decidable (p.Holds q) :=
  inferInstanceAs (Decidable (p.offset ≤ q.offset ∧ q.stop ≤ p.stop))

namespace Rule

variable {p q : Part} {v s front inner : Text}

/-! ## Arguments -/

/-- A text with parentheses: `front` is the text before the first opening one, and `inner` the text
between this and the last closing one. -/
structure IsCall (s front inner : Text) : Prop where
  exists_rest : ∃ rest, s = front ++ '(' :: (inner ++ ')' :: rest) ∧ ')' ∉ rest
  notMem_front : '(' ∉ front

/-- An opening parenthesis stands in the text, and later a closing one. -/
def HasArguments (s : Text) : Prop := ∃ a b c, s = a ++ '(' :: (b ++ ')' :: c)

/-- **The text of the arguments** of a call. -/
theorem argumentText?_eq_some_iff :
    argumentText? s = some (front, inner) ↔ IsCall s front inner := by
  have hclose : ∀ {inner rest : Text}, ')' ∉ rest →
      (dropEndWhile (· != ')') (inner ++ ')' :: rest)).dropLast = inner := by
    intro inner rest hrest
    have hall : ∀ c ∈ rest, (c != ')') = true := by
      intro c hc
      simpa using fun heq : c = ')' => hrest (heq ▸ hc)
    rw [dropEndWhile_append inner (by simp) hall, List.dropLast_concat]
  unfold argumentText?
  constructor
  · intro h
    split at h
    · next front' rest hcut =>
      obtain ⟨rfl, hfront⟩ := cutAt?_eq_some_iff.1 hcut
      split at h
      · next hmem =>
        -- the last closing parenthesis is the first from behind
        have hmem : ')' ∈ rest.reverse := by simpa using hmem
        obtain ⟨tail, back, hback, htail⟩ := List.eq_append_cons_of_mem hmem
        have hrest : rest = back.reverse ++ ')' :: tail.reverse := by
          rw [← List.reverse_reverse rest, hback]
          simp
        have hnot : ')' ∉ tail.reverse := fun hc => htail (List.mem_reverse.1 hc)
        rw [hrest, hclose hnot] at h
        obtain ⟨rfl, rfl⟩ := Prod.mk.inj (Option.some.inj h)
        exact ⟨⟨tail.reverse, by rw [hrest], hnot⟩, hfront⟩
      · cases h
    · cases h
  · rintro ⟨⟨rest, rfl, hrest⟩, hfront⟩
    rw [cutAt?_eq_some_iff.2 ⟨rfl, hfront⟩]
    simp [hclose hrest]

/-- A text without a closing parenthesis behind an opening one is no call. -/
theorem argumentText?_eq_none (h : ¬ HasArguments s) : argumentText? s = none := by
  rw [Option.eq_none_iff_forall_ne_some]
  rintro ⟨front, inner⟩ hsome
  obtain ⟨⟨rest, hs, -⟩, -⟩ := argumentText?_eq_some_iff.1 hsome
  exact h ⟨front, inner, rest, hs⟩

theorem argumentsOf_of_isCall (h : IsCall p.text front inner) :
    argumentsOf p = (splitComma inner).map fun a =>
      ⟨p.offset + byteLength (front ++ ['(']) + a.offset, a.text⟩ := by
  rw [argumentsOf, argumentText?_eq_some_iff.2 h, byteLength_append]
  rfl

theorem argumentsOf_of_not_hasArguments (h : ¬ HasArguments p.text) : argumentsOf p = [p] := by
  rw [argumentsOf, argumentText?_eq_none h]

/-- The arguments of a part stand in it, one after another. -/
theorem standsIn_argumentsOf (hp : p.Trimmed) :
    (∀ q ∈ argumentsOf p, q.Trimmed ∧ q.StandsIn p.offset p.text) ∧
      (argumentsOf p).Pairwise fun a b => a.offset + a.text.byteLength < b.offset := by
  cases hcall : argumentText? p.text with
  | some call =>
    obtain ⟨front, inner⟩ := call
    have hcall := argumentText?_eq_some_iff.1 hcall
    obtain ⟨rest, hrest, -⟩ := hcall.exists_rest
    rw [argumentsOf_of_isCall hcall]
    constructor
    · intro q hq
      obtain ⟨a, ha, rfl⟩ := List.mem_map.1 hq
      obtain ⟨front', rest', hinner, hoffset⟩ := Part.standsIn_of_mem_split ha
      have htrimmed := Part.trimmed_of_mem_split ha
      refine ⟨⟨htrimmed.ne_nil, htrimmed.trimStart⟩, front ++ '(' :: front', rest' ++ ')' :: rest,
        ?_, ?_⟩
      · rw [hrest, hinner]
        simp
      · simp only [hoffset, byteLength_append, byteLength_cons, byteLength_nil]
        omega
    · rw [List.pairwise_map]
      refine (Part.pairwise_split [','] inner).imp fun {a b} hlt => ?_
      dsimp only
      omega
  | none =>
    rw [argumentsOf, hcall]
    refine ⟨fun q hq => ?_, List.pairwise_singleton _ _⟩
    obtain rfl := List.mem_singleton.1 hq
    exact ⟨hp, [], [], by simp, rfl⟩

theorem holds_of_mem_argumentsOf (hp : p.Trimmed) (hq : q ∈ argumentsOf p) : p.Holds q :=
  ((standsIn_argumentsOf hp).1 q hq).2.bounds

/-! ## Candidates -/

/-- **A candidate stands in its value**, without white space before it. -/
theorem standsIn_of_mem_candidates (h : q ∈ candidates v) : q.Trimmed ∧ q.StandsIn 0 v := by
  obtain ⟨p, hp, hq⟩ := List.mem_flatMap.1 h
  obtain ⟨htrimmed, hstands⟩ := (standsIn_argumentsOf (Part.trimmed_of_mem_split hp)).1 q hq
  exact ⟨htrimmed, hstands.trans (Part.standsIn_of_mem_split hp)⟩

/-- **A candidate ends before the next one begins.** -/
theorem pairwise_candidates (v : Text) :
    (candidates v).Pairwise fun p q => p.offset + p.text.byteLength < q.offset := by
  rw [candidates, List.pairwise_flatMap]
  refine ⟨fun p hp => (standsIn_argumentsOf (Part.trimmed_of_mem_split hp)).2, ?_⟩
  refine (Part.pairwise_split _ v).imp_of_mem fun {p q} hp hq hlt a ha b hb => ?_
  have hbound := holds_of_mem_argumentsOf (Part.trimmed_of_mem_split hp) ha
  have hbound' := holds_of_mem_argumentsOf (Part.trimmed_of_mem_split hq) hb
  simp only [Part.Holds, Part.stop] at hbound hbound'
  omega

/-- What other parts give does not lie in the part `p`. -/
theorem filter_flatMap_argumentsOf {ps : List Part} (htrimmed : ∀ p' ∈ ps, p'.Trimmed)
    (hapart : ∀ p' ∈ ps, p'.stop < p.offset ∨ p.stop < p'.offset) :
    (ps.flatMap argumentsOf).filter (fun q => p.Holds q) = [] := by
  apply List.filter_eq_nil_iff.2
  intro q hq hholds
  obtain ⟨p', hp', hq⟩ := List.mem_flatMap.1 hq
  have hin := holds_of_mem_argumentsOf (htrimmed p' hp') hq
  have hout := of_decide_eq_true hholds
  have hapart := hapart p' hp'
  simp only [Part.Holds, Part.stop] at hin hout hapart
  omega

/-- The candidates that lie in a part are those that it gives. -/
theorem filter_candidates (hp : p ∈ splitSpace v) :
    (candidates v).filter (fun q => p.Holds q) = argumentsOf p := by
  obtain ⟨before, after, hsplit⟩ := List.append_of_mem hp
  have htrimmed : ∀ p' ∈ splitSpace v, p'.Trimmed := fun _ h => Part.trimmed_of_mem_split h
  have hordered : (splitSpace v).Pairwise fun a b => a.stop < b.offset := Part.pairwise_split _ v
  rw [candidates]
  rw [hsplit] at htrimmed hordered ⊢
  obtain ⟨-, hbehind, hbefore⟩ := List.pairwise_append.1 hordered
  have hown : (argumentsOf p).filter (fun q => p.Holds q) = argumentsOf p := by
    apply List.filter_eq_self.2
    intro q hq
    simpa using holds_of_mem_argumentsOf (htrimmed p (by simp)) hq
  have hfront := filter_flatMap_argumentsOf (p := p) (fun p' h => htrimmed p' (by simp [h]))
    fun p' h => .inl (hbefore p' h p List.mem_cons_self)
  have hback := filter_flatMap_argumentsOf (p := p) (fun p' h => htrimmed p' (by simp [h]))
    fun p' h => .inr ((List.pairwise_cons.1 hbehind).1 p' h)
  rw [List.flatMap_append, List.flatMap_cons, List.filter_append, List.filter_append, hfront, hown,
    hback, List.nil_append, List.append_nil]

/-- The pieces of a value that may be numbers, by the bytes and the parts of the value. -/
structure Located (v : Text) (ps : List Part) : Prop where
  /-- A piece is the value from its offset on, cut between characters. -/
  slice : ∀ p ∈ ps, v.sliceBytes? p.offset p.stop = some p.text
  nonempty : ∀ p ∈ ps, p.text ≠ []
  /-- A piece ends before the next one begins. -/
  ordered : ps.Pairwise fun p q => p.stop < q.offset
  /-- Every piece lies in a part. -/
  inside : ∀ q ∈ ps, ∃ p ∈ splitSpace v, p.Holds q
  /-- A part without arguments is itself the one piece that lies in it. -/
  whole : ∀ p ∈ splitSpace v, ¬ HasArguments p.text → ps.filter (fun q => p.Holds q) = [p]
  /-- The pieces that lie in a call are its arguments. -/
  arguments : ∀ p ∈ splitSpace v, ∀ front inner, IsCall p.text front inner →
    ps.filter (fun q => p.Holds q) = (splitComma inner).map fun a =>
      ⟨p.offset + byteLength (front ++ ['(']) + a.offset, a.text⟩

/-- **Candidates are located exactly.** They are nonempty pieces of the value at their offsets, in order
and apart from each other. A part of the value without parentheses is one of them, and a part with
parentheses gives its arguments at the places where they stand. -/
theorem candidates_located (v : Text) : Located v (candidates v) where
  slice := by
    intro q hq
    obtain ⟨front, rest, rfl, hoffset⟩ := (standsIn_of_mem_candidates hq).2
    rw [Nat.zero_add] at hoffset
    rw [Part.stop, hoffset]
    exact sliceBytes?_append front q.text rest
  nonempty := fun q hq => (standsIn_of_mem_candidates hq).1.ne_nil
  ordered := pairwise_candidates v
  inside := by
    intro q hq
    obtain ⟨p, hp, hq⟩ := List.mem_flatMap.1 hq
    exact ⟨p, hp, holds_of_mem_argumentsOf (Part.trimmed_of_mem_split hp) hq⟩
  whole := fun p hp h => by
    rw [filter_candidates hp, argumentsOf_of_not_hasArguments h]
  arguments := fun p hp front inner h => by
    rw [filter_candidates hp, argumentsOf_of_isCall h]

end Rule

end LessStyle
