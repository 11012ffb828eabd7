import LessStyle.Proofs.Text.Scan
import LessStyle.Value.Part

/-!
# Parts in their value

The pieces between separators make up the value, with the separators between them (`Part.Cut`), and a
part is such a piece without the white space around it. So each part stands in the value at its offset
(`Part.standsIn_of_mem_split`), and each ends before the next one begins (`Part.pairwise_split`).
-/

namespace LessStyle

open Text

namespace Nesting

/-- No character of a text that follows one with nesting `n` is a separator. -/
def Keeps (separators : List Char) (n : Nesting) (s : Text) : Prop :=
  ∀ a c b, s = a ++ c :: b → (a.foldl step n).separates separators c = false

theorem keeps_nil (separators : List Char) (n : Nesting) : Keeps separators n [] := by
  intro a c b h
  simp at h

theorem Keeps.cons {separators : List Char} {n : Nesting} {c : Char} {s : Text}
    (hc : n.separates separators c = false) (hs : Keeps separators (n.step c) s) :
    Keeps separators n (c :: s) := by
  intro a d b h
  cases a with
  | nil =>
    obtain ⟨rfl, rfl⟩ := List.cons.inj h
    exact hc
  | cons e a =>
    obtain ⟨rfl, rfl⟩ := List.cons.inj h
    exact hs a d b rfl

end Nesting

namespace Part

/-- The pieces `ps` are those between the separators of a text that begins at `offset`, where the
nesting is `n`. -/
inductive Cut (separators : List Char) : Nesting → Nat → Text → List Part → Prop where
  | whole {n : Nesting} {offset : Nat} {s : Text} (keeps : n.Keeps separators s) :
      Cut separators n offset s [⟨offset, s⟩]
  | cut {n : Nesting} {offset : Nat} {piece s : Text} {c : Char} {ps : List Part}
      (keeps : n.Keeps separators piece)
      (separates : (piece.foldl Nesting.step n).separates separators c = true)
      (rest : Cut separators ((piece.foldl Nesting.step n).step c)
        (offset + piece.byteLength + c.utf8Size) s ps) :
      Cut separators n offset (piece ++ c :: s) (⟨offset, piece⟩ :: ps)

variable {separators : List Char} {n : Nesting} {offset : Nat} {s : Text} {ps : List Part}

theorem Cut.cons {c : Char} (hc : n.separates separators c = false)
    (h : Cut separators (n.step c) (offset + c.utf8Size) s ps) :
    Cut separators n offset (c :: s) (cons offset c ps) := by
  generalize hn : n.step c = m at h
  generalize hoffset : offset + c.utf8Size = start at h
  cases h with
  | whole keeps => exact .whole (.cons hc (hn ▸ keeps))
  | @cut _ _ piece s d ps keeps separates rest =>
    subst hn hoffset
    have hrest : offset + c.utf8Size + piece.byteLength = offset + byteLength (c :: piece) := by
      rw [byteLength_cons, Nat.add_assoc]
    rw [hrest] at rest
    exact .cut (.cons hc keeps) separates rest

theorem cut_segments (separators : List Char) (n : Nesting) (offset : Nat) (s : Text) :
    Cut separators n offset s (segments separators n offset s) := by
  induction s generalizing n offset with
  | nil => exact .whole (Nesting.keeps_nil separators n)
  | cons c s ih =>
    rw [segments]
    split
    · next hc => exact .cut (Nesting.keeps_nil separators n) hc (ih _ _)
    · next hc => exact (ih _ _).cons (by simpa using hc)

/-- A text without separators is one piece. -/
theorem Cut.eq_of_keeps (h : Cut separators n offset s ps) (hs : n.Keeps separators s) :
    ps = [⟨offset, s⟩] := by
  cases h with
  | whole keeps => rfl
  | @cut _ _ piece s c ps keeps separates rest =>
    rw [hs piece c s rfl] at separates
    cases separates

/-- The piece is written in the text, which begins at `offset`, at the offset of the piece. -/
def StandsIn (offset : Nat) (s : Text) (p : Part) : Prop :=
  ∃ front rest, s = front ++ (p.text ++ rest) ∧ p.offset = offset + front.byteLength

theorem StandsIn.trans {p q : Part} (hq : q.StandsIn p.offset p.text) (hp : p.StandsIn offset s) :
    q.StandsIn offset s := by
  obtain ⟨front, rest, rfl, hoffset⟩ := hp
  obtain ⟨front', rest', htext, hoffset'⟩ := hq
  refine ⟨front ++ front', rest' ++ rest, by simp [htext], ?_⟩
  rw [hoffset', hoffset, byteLength_append, Nat.add_assoc]

theorem StandsIn.bounds {p : Part} (h : p.StandsIn offset s) :
    offset ≤ p.offset ∧ p.offset + p.text.byteLength ≤ offset + s.byteLength := by
  obtain ⟨front, rest, rfl, hoffset⟩ := h
  simp only [byteLength_append]
  omega

/-- The offset behind the piece. -/
def stop (p : Part) : Nat := p.offset + p.text.byteLength

/-- One of the pieces holds the byte at offset `k`. -/
def Covers (ps : List Part) (k : Nat) : Prop := ∃ p ∈ ps, p.offset ≤ k ∧ k < p.stop

instance (ps : List Part) (k : Nat) : Decidable (Covers ps k) :=
  inferInstanceAs (Decidable (∃ p ∈ ps, _))

theorem Cut.standsIn (h : Cut separators n offset s ps) : ∀ p ∈ ps, p.StandsIn offset s := by
  induction h with
  | @whole n offset s keeps =>
    intro p hp
    obtain rfl := List.mem_singleton.1 hp
    exact ⟨[], [], by simp, rfl⟩
  | @cut n offset piece s c ps keeps separates rest ih =>
    intro p hp
    rcases List.mem_cons.1 hp with rfl | hp
    · exact ⟨[], c :: s, rfl, rfl⟩
    · obtain ⟨front, behind, rfl, hoffset⟩ := ih p hp
      refine ⟨piece ++ c :: front, behind, by simp, ?_⟩
      rw [hoffset, byteLength_append, byteLength_cons]
      omega

/-- A piece ends before the next one begins. -/
theorem Cut.pairwise (h : Cut separators n offset s ps) :
    ps.Pairwise fun p q => p.offset + p.text.byteLength < q.offset := by
  induction h with
  | whole keeps => exact List.pairwise_singleton _ _
  | @cut n offset piece s c ps keeps separates rest ih =>
    refine .cons ?_ ih
    intro q hq
    obtain ⟨front, _, -, hoffset⟩ := rest.standsIn q hq
    have hsize := c.utf8Size_pos
    show offset + piece.byteLength < q.offset
    omega

/-- What is left of a piece without white space around it. -/
theorem exists_of_trim? {p q : Part} (h : p.trim? = some q) :
    ∃ front rest, p.text = front ++ (q.text ++ rest) ∧ q.offset = p.offset + front.byteLength := by
  unfold trim? at h
  dsimp only at h
  split at h
  · cases h
  · obtain rfl := Option.some.inj h
    obtain ⟨rest, hrest⟩ := exists_append_trim p.text
    exact ⟨p.text.takeWhile isWhite, rest, by rw [← List.append_assoc, hrest], rfl⟩

/-- **A part stands in its value.** -/
theorem standsIn_of_mem_split {v : Text} {q : Part} (h : q ∈ split separators v) :
    q.StandsIn 0 v := by
  obtain ⟨p, hp, hq⟩ := List.mem_filterMap.1 h
  obtain ⟨front, rest, rfl, hoffset⟩ := (cut_segments separators .start 0 v).standsIn p hp
  obtain ⟨front', rest', htext, hoffset'⟩ := exists_of_trim? hq
  refine ⟨front ++ front', rest' ++ rest, ?_, ?_⟩
  · simp [htext]
  · rw [hoffset', hoffset, byteLength_append, Nat.add_assoc]

/-- A part is not empty and does not begin with white space. -/
structure Trimmed (p : Part) : Prop where
  ne_nil : p.text ≠ []
  trimStart : p.text.trimStart = p.text

theorem trimmed_of_mem_split {v : Text} {q : Part} (h : q ∈ split separators v) : q.Trimmed := by
  obtain ⟨p, -, hq⟩ := List.mem_filterMap.1 h
  unfold trim? at hq
  dsimp only at hq
  split at hq
  · cases hq
  · next hne =>
    obtain rfl := Option.some.inj hq
    refine ⟨by simpa using hne, ?_⟩
    obtain ⟨tail, htail⟩ := dropEndWhile_prefix isWhite p.text.trimStart
    have hhead := List.head?_dropWhile_not isWhite p.text
    rw [show p.text.dropWhile isWhite = p.text.trim ++ tail from htail.symm] at hhead
    change (p.text.trim).dropWhile isWhite = p.text.trim
    cases htext : p.text.trim with
    | nil => rfl
    | cons c text =>
      rw [htext] at hhead
      exact List.dropWhile_cons_of_neg (by simpa using hhead)

/-- **A part ends before the next one begins.** -/
theorem pairwise_split (separators : List Char) (v : Text) :
    (split separators v).Pairwise fun p q => p.offset + p.text.byteLength < q.offset := by
  refine List.Pairwise.filterMap _ ?_ (cut_segments separators .start 0 v).pairwise
  intro p q hlt p' hp q' hq
  obtain ⟨front, rest, htext, hoffset⟩ := exists_of_trim? hp
  obtain ⟨front', _, -, hoffset'⟩ := exists_of_trim? hq
  have hlen := congrArg byteLength htext
  rw [byteLength_append, byteLength_append] at hlen
  omega

end Part

end LessStyle
