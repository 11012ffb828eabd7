import LessStyle.Proofs.Token.Bytes
import LessStyle.Proofs.Token.Closing
import LessStyle.Proofs.Value.ItemSearch

/-!
# The scanner of items cuts as `scan` does

Whatever the value, the scanner on bytes reaches the end of its loop with the items of `scan`, and no
cut on the way fails (`Scanner.yields_run`). The proof goes branch by branch: each ends at the byte
length of the text that `lexeme` takes. A word may begin with any character, and the search for its end
starts behind the first byte of it; it does not stop inside the character, for no byte of 128 or more
ends a word (`Scanner.wordStop_eq`).
-/

namespace LessStyle.Item

open Text
open Token (isSpaceByte sees_isSpaceByte findOffset? exists_utf8_cons)
open Token.Cutting

namespace Scanner

variable {v p r : Text} {pos : Nat} {c : Char}

/-! ## Branches -/

/-- The offset stands between `p` and `r`, the two sides of the value. -/
structure At (v p r : Text) (pos : Nat) : Prop where
  text : p ++ r = v
  pos : pos = byteLength p

/-- What begins with `c` after `p`, counted in bytes: `r` is the text after `c`, and the widths are given
as `lexeme` gives them. -/
def ending (p : Text) (c : Char) (r : Text) : Kind × Nat × Nat → Answer
  | (kind, n, unit) =>
    (kind, byteLength (p ++ c :: r.take n),
      if kind = .number then
        some (byteLength (p ++ (c :: r.take n).take ((c :: r.take n).length - unit)))
      else none)

/-- Past a character of one byte. -/
theorem At.succ (h : At v p (c :: r) pos) (hc : c.utf8Size = 1) : At v (p ++ [c]) r (pos + 1) where
  text := by rw [List.append_assoc, List.singleton_append, h.text]
  pos := by rw [h.pos, byteLength_append, byteLength_cons, hc, byteLength_nil]

theorem At.drop (h : At v p r pos) : v.utf8.drop pos = r.utf8 := by
  rw [h.pos, ← h.text, drop_utf8_append]

theorem At.peek (h : At v p r pos) : v.utf8[pos]? = r.utf8.head? := by
  rw [← h.drop, List.head?_drop]

theorem ending_single (h : At v p (c :: r) pos) (hc : c.utf8Size = 1) {kind : Kind}
    (hkind : kind ≠ .number) : (kind, pos + 1, none) = ending p c r (kind, 0, 0) := by
  rw [ending, if_neg hkind, (h.succ hc).pos]
  rfl

/-- The end of a word, from behind the first byte of its first character. -/
theorem wordStop_eq (h : At v p (c :: r) pos) :
    wordStop v (pos + 1) = byteLength (p ++ c :: r.take (wordWidth r)) := by
  obtain ⟨b, bs, hb, hbs⟩ := exists_utf8_cons c r
  have hdrop : v.utf8.drop (pos + 1) = bs ++ r.utf8 := by
    rw [← List.drop_drop, h.drop, hbs]
    rfl
  have hsize : c.utf8Size = bs.length + 1 := by
    rw [← String.length_utf8EncodeChar, hb, List.length_cons]
  -- the other bytes of the first character, if there are any, are 128 or more
  have hhigh : ∀ d ∈ bs, (!endsWordByte d) = true := by
    intro d hd
    by_cases hc : c.toNat < 128
    · rw [encode_of_lt hc] at hb
      obtain ⟨-, rfl⟩ := List.cons.inj hb
      cases hd
    · have hmem : d ∈ String.utf8EncodeChar c := hb ▸ List.mem_cons_of_mem b hd
      rw [sees_endsWordByte.byte (le_of_mem_encode (Nat.le_of_not_lt hc) hmem)]
      rfl
  rw [wordStop, hdrop, List.takeWhile_append_of_pos hhigh, sees_endsWordByte.takeWhile_not_utf8,
    List.length_append, length_utf8, wordWidth, take_length_takeWhile, byteLength_append,
    byteLength_cons, hsize, h.pos]
  omega

theorem ending_word (h : At v p (c :: r) pos) :
    (.word, wordStop v (pos + 1), none) = ending p c r (.word, wordWidth r, 0) := by
  rw [ending, wordStop_eq h]
  rfl

/-- Behind the byte at an offset, or at the end: as `getD` takes the width or all of the text. -/
theorem behind_eq (h : At v p (c :: r) pos) {offset? width? : Option Nat}
    (hstop : offset?.map (· + 1) = width?.map fun n => byteLength (c :: r.take n)) :
    behind v pos offset? = byteLength (p ++ c :: r.take (width?.getD r.length)) := by
  cases width? with
  | none =>
    rw [Option.map_none, Option.map_eq_none_iff] at hstop
    rw [hstop, behind, Option.getD_none, List.take_length, h.text]
  | some n =>
    obtain ⟨k, rfl, hk⟩ := Option.map_eq_some_iff.1 hstop
    have hk : k + 1 = byteLength (c :: r.take n) := hk
    rw [behind, Option.getD_some, byteLength_append, ← hk, ← h.pos, Nat.add_assoc]

theorem yields_stringStop {q : Char} (h : At v p (q :: r) pos) (hq : q.utf8Size = 1)
    (hne : q ≠ '\\') :
    Yields v (stringStop v pos q) (byteLength (p ++ q :: r.take (stringWidth q r))) := by
  have hslice := yields_sliceFrom _ _ h.text
  rw [← h.pos] at hslice
  refine hslice.bind (yields_of_eq (behind_eq h ?_))
  rw [quoteOffset?, List.drop_succ_cons, List.drop_zero]
  cases hclose : closing? q false r with
  | none => rfl
  | some n =>
    obtain ⟨a, b, rfl, rfl, -⟩ := (Token.closing?_eq_some_iff hne r n).1 hclose
    have htake : (a ++ q :: b).take (a.length + 1) = a ++ [q] := by
      rw [List.take_length_add_append]
      rfl
    simp [htake, hq, Nat.add_assoc]

/-- The first `q` behind another character, as an offset and as a width. -/
theorem offset_findIdx? {q : Char} (hq : q.toNat < 128) (hc : c ≠ q) (r : Text) :
    (((c :: r).findIdx? (· == q)).map fun k => byteLength ((c :: r).take k)).map (· + 1) =
      (through? q r).map fun n => byteLength (c :: r.take n) := by
  rw [List.findIdx?_cons, beq_eq_false_iff_ne.2 hc, if_neg Bool.false_ne_true, through?]
  cases hk : r.findIdx? (· == q) with
  | none => rfl
  | some k =>
    have htake := (sees_beq hq).byteLength_take_succ hk
    simp [htake, Nat.add_assoc]

theorem yields_urlStop (h : At v p (c :: r) pos) (hc : c ≠ ')') :
    Yields v (urlStop v pos) (byteLength (p ++ c :: r.take (urlWidth r))) := by
  have hslice := yields_sliceFrom _ _ h.text
  rw [← h.pos] at hslice
  refine hslice.bind (yields_of_eq (behind_eq h ?_))
  rw [findOffset?, find?_singleton]
  exact offset_findIdx? (by decide) hc r

theorem yields_referenceStop (h : At v p r pos) :
    Yields v (referenceStop v pos) (byteLength (p ++ r.take (referenceWidth r))) := by
  rw [referenceStop, h.peek, Token.head?_utf8 (by decide)]
  by_cases hr : r.head? = some '{'
  · obtain ⟨r, rfl⟩ := List.head?_eq_some_iff.1 hr
    have hbytes := yields_bytesFrom _ _ h.text
    rw [← h.pos] at hbytes
    rw [if_pos (by simp)]
    refine hbytes.bind (yields_of_eq ?_)
    rw [referenceWidth, List.take_succ_cons]
    refine behind_eq h ?_
    rw [(sees_beq (by decide)).findIdx?_utf8]
    exact offset_findIdx? (by decide) (by decide) r
  · have hwidth : referenceWidth r = nameWidth r := by
      unfold referenceWidth
      split
      · exact absurd rfl hr
      · rfl
    rw [if_neg (by simpa using hr), hwidth]
    refine yields_of_eq ?_
    rw [h.drop, nameLength_utf8, byteLength_append, h.pos]

theorem yields_variableStop (h : At v p r pos) :
    Yields v (variableStop v pos) (byteLength (p ++ r.take (variableWidth r))) := by
  rw [variableStop, h.peek, Token.head?_utf8 (by decide)]
  by_cases hr : r.head? = some '@'
  · obtain ⟨r, rfl⟩ := List.head?_eq_some_iff.1 hr
    rw [if_pos (by simp), variableWidth, List.take_succ_cons]
    have hstop := yields_referenceStop (h.succ (by decide))
    rwa [List.append_assoc, List.singleton_append] at hstop
  · have hwidth : variableWidth r = referenceWidth r := by
      unfold variableWidth
      split
      · exact absurd rfl hr
      · rfl
    rw [if_neg (by simpa using hr), hwidth]
    exact yields_referenceStop h

theorem toNat_lt_of_isNumeral {s : Text} (h : IsNumeral s) : ∀ c ∈ s, c.toNat < 128 := by
  have hdigit : ∀ {c : Char}, c.isDigit = true → c.toNat < 128 :=
    fun hc => Nat.lt_of_le_of_lt (Char.isDigit_iff_toNat.1 hc).2 (by decide)
  obtain ⟨whole, hwhole, ⟨rfl, -⟩ | ⟨fraction, -, hfraction, rfl⟩⟩ := h
  · exact fun c hc => hdigit (hwhole c hc)
  · intro c hc
    rcases List.mem_append.1 hc with hc | hc
    · exact hdigit (hwhole c hc)
    · rcases List.mem_cons.1 hc with rfl | hc
      · decide
      · exact hdigit (hfraction c hc)

/-- The end of a number and the offset of its unit. -/
theorem ending_number (h : At v p (c :: r) pos) (hstart : startsNumber c r = true) {unit : Nat}
    (hunit : pos + digitsLength false (v.utf8.drop pos) = unit) :
    (.number, unit + unitLength (v.utf8.drop unit), some unit) =
      ending p c r (.number,
        digitsWidth (c :: r) + unitWidth ((c :: r).drop (digitsWidth (c :: r))) - 1,
        unitWidth ((c :: r).drop (digitsWidth (c :: r)))) := by
  have hascii := byteLength_of_lt (toNat_lt_of_isNumeral (isNumeral_take_digitsWidth hstart))
  rw [List.length_take_of_le (digitsWidth_le _)] at hascii
  obtain ⟨htext, hcut⟩ := number_text hstart rfl rfl
  rw [h.drop, digitsLength_utf8] at hunit
  have hnumeral : byteLength (p ++ (c :: r).take (digitsWidth (c :: r))) = unit := by
    rw [byteLength_append, hascii, ← h.pos, hunit]
  have hrest : v.utf8.drop unit = utf8 ((c :: r).drop (digitsWidth (c :: r))) := by
    have hsplit : p ++ (c :: r).take (digitsWidth (c :: r)) ++ (c :: r).drop (digitsWidth (c :: r)) =
        v := by
      rw [List.append_assoc, List.take_append_drop, h.text]
    rw [← hnumeral, ← hsplit, drop_utf8_append]
  rw [hrest, unitLength_utf8, ending, if_pos rfl, hcut, htext, List.take_left, hnumeral,
    ← List.append_assoc, byteLength_append, hnumeral]

/-! ## Dispatch -/

theorem toNat_lt_of_mem_marks {q : Char} (hq : q ∈ marks) : q.toNat < 128 := by
  have hall : marks.all (·.toNat < 128) = true := by decide
  exact of_decide_eq_true (List.all_eq_true.1 hall q hq)

theorem answer_of_notMem_marks (v : Text) (pos : Nat) {b : UInt8}
    (hb : ∀ q ∈ marks, (b == code q) = false) :
    answer v pos b =
      if isDigitByte b || (b == code '.' && v.utf8[pos + 1]?.any isDigitByte) then
        return (.number, pos + digitsLength false (v.utf8.drop pos) +
          unitLength (v.utf8.drop (pos + digitsLength false (v.utf8.drop pos))),
          some (pos + digitsLength false (v.utf8.drop pos)))
      else do
        let rest ← sliceFrom v pos
        if startsUrlBytes rest then return (.url, ← urlStop v pos, none)
        else return (.word, wordStop v (pos + 1), none) := by
  simp only [marks, List.forall_mem_cons] at hb
  simp only [answer, hb]
  rfl

/-- What a dash begins. -/
theorem yields_dash (h : At v p ('-' :: r) pos) :
    Yields v
      (if v.utf8[pos + 1]?.any fun n => isLetterByte n || isOneOf ['-', '_'] n then
        pure (.word, wordStop v (pos + 1), none)
      else pure (.operator, pos + 1, none)) (ending p '-' r (lexeme '-' r)) := by
  have hdash : startsDashWord r = r.head?.any fun d => d.isAlpha || ['-', '_'].contains d := by
    cases r with
    | nil => rfl
    | cons d r =>
      show (d.isAlpha || d == '-' || d == '_') = (d.isAlpha || ['-', '_'].contains d)
      rw [List.contains_cons, List.contains_cons, List.contains_nil, Bool.or_false, Bool.or_assoc]
  rw [(h.succ (by decide)).peek, lexeme_dash, hdash,
    any_head?_utf8 (Sees.or sees_isLetterByte (sees_isOneOf (by decide))).head]
  split
  · exact yields_of_eq (ending_word h)
  · exact yields_of_eq (ending_single h (by decide) (by decide))

/-- What begins with a character that alone does not decide it. -/
theorem yields_other {b : UInt8} {bs : List UInt8} (h : At v p (c :: r) pos)
    (hb : String.utf8EncodeChar c = b :: bs) (hc : c ∉ marks) :
    Yields v (answer v pos b) (ending p c r (lexeme c r)) := by
  have hne : ∀ q ∈ marks, (b == code q) = false := by
    intro q hq
    rw [(sees_beq (toNat_lt_of_mem_marks hq)).head hb, beq_eq_false_iff_ne]
    rintro rfl
    exact hc hq
  have hnumber : (isDigitByte b || (b == code '.' && v.utf8[pos + 1]?.any isDigitByte)) =
      startsNumber c r := by
    have hdigit : startsDigit r = r.head?.any Char.isDigit := by cases r <;> rfl
    rw [startsNumber, sees_isDigitByte.head hb, (sees_beq (d := '.') (by decide)).head hb, hdigit]
    by_cases hpoint : c = '.'
    · subst hpoint
      rw [(h.succ (by decide)).peek, any_head?_utf8 sees_isDigitByte.head]
    · rw [beq_eq_false_iff_ne.2 hpoint, Bool.false_and, Bool.false_and]
  rw [answer_of_notMem_marks v pos hne, lexeme_of_notMem_marks r hc, hnumber]
  split
  · next hstart => exact yields_of_eq (ending_number h hstart rfl)
  · have hslice := yields_sliceFrom _ _ h.text
    rw [← h.pos] at hslice
    refine hslice.bind ?_
    rw [startsUrlBytes_eq]
    split
    · next hurl =>
      have hparen : c ≠ ')' := fun heq => hc (heq ▸ by decide)
      exact (yields_urlStop h hparen).bind (yields_pure _)
    · exact yields_of_eq (ending_word h)

/-- **What begins at a character ends where `lexeme` says**, and is found by cuts at characters. -/
theorem yields_answer {b : UInt8} {bs : List UInt8} (h : At v p (c :: r) pos)
    (hb : String.utf8EncodeChar c = b :: bs) :
    Yields v (answer v pos b) (ending p c r (lexeme c r)) := by
  by_cases hc : c ∈ marks
  · obtain rfl := eq_code hb (toNat_lt_of_mem_marks hc)
    have hone : c.utf8Size = 1 := (sees_beq (toNat_lt_of_mem_marks hc)).utf8Size (beq_self_eq_true c)
    simp only [marks, List.mem_cons, List.not_mem_nil, or_false] at hc
    rcases hc with rfl | rfl | rfl | rfl | rfl | rfl | rfl | rfl | rfl | rfl
    · exact (yields_stringStop h hone (by decide)).bind (yields_pure _)
    · exact (yields_stringStop h hone (by decide)).bind (yields_pure _)
    · exact yields_of_eq (ending_single h hone (by decide))
    · exact yields_of_eq (ending_single h hone (by decide))
    · exact yields_of_eq (ending_single h hone (by decide))
    · exact yields_of_eq (ending_single h hone (by decide))
    · exact yields_of_eq (ending_single h hone (by decide))
    · exact yields_of_eq (ending_single h hone (by decide))
    · exact yields_dash h
    · have hstop := yields_variableStop (h.succ hone)
      rw [List.append_assoc, List.singleton_append] at hstop
      exact hstop.bind (yields_pure _)
  · exact yields_other h hb hc

/-! ## Rounds -/

/-- Behind the item that `c` begins. -/
theorem At.first (h : At v p (c :: r) pos) :
    At v (p ++ (first pos c r).text) (r.drop (lexeme c r).2.1) (first pos c r).stop where
  text := by rw [List.append_assoc, text_first_append, h.text]
  pos := by
    rw [byteLength_append, ← h.pos]
    rfl

/-- Cutting off the item gives the item of `scan`. -/
theorem yields_emit {l : Scanner} (h : At v p (c :: r) l.pos) :
    Yields v (emit v l (ending p c r (lexeme c r)))
      ⟨(first l.pos c r).stop, l.items ++ [first l.pos c r]⟩ := by
  have hother : (lexeme c r).1 ≠ .number → (lexeme c r).2.2 = 0 := by
    intro hkind
    rcases lexeme_cases c r with ⟨-, hlex⟩ | ⟨kind, n, -, hlex⟩
    · rw [hlex] at hkind
      exact absurd rfl hkind
    · rw [hlex]
  have hsplit : p ++ ((first l.pos c r).text ++ r.drop (lexeme c r).2.1) = v := by
    rw [text_first_append, h.text]
  unfold first at hsplit ⊢
  generalize lexeme c r = lex at *
  obtain ⟨kind, n, unit⟩ := lex
  dsimp only at hsplit hother ⊢
  rw [ending, emit]
  generalize c :: r.take n = text at *
  generalize hcut : text.length - unit = cut
  have hend : byteLength (p ++ text) = l.pos + byteLength text := by rw [byteLength_append, h.pos]
  have htext : Yields v (slice v l.pos (byteLength (p ++ text))) text := by
    rw [byteLength_append, h.pos]
    exact yields_slice p text _ hsplit
  have hunit : Yields v (unitText v (byteLength (p ++ text))
      (if kind = .number then some (byteLength (p ++ text.take cut)) else none)) (text.drop cut) := by
    by_cases hkind : kind = .number
    · rw [if_pos hkind]
      have hslice := yields_slice (p ++ text.take cut) (text.drop cut) _ (by
        rw [List.append_assoc, ← List.append_assoc (text.take cut), List.take_append_drop, hsplit])
      rwa [← byteLength_append, List.append_assoc, List.take_append_drop] at hslice
    · rw [if_neg hkind]
      refine yields_of_eq (List.drop_eq_nil_of_le ?_).symm
      rw [← hcut, hother hkind, Nat.sub_zero]
  refine htext.bind (hunit.bind (yields_of_eq ?_))
  rw [hend]
  rfl

/-- **The scanner finds the items of `scan`**, from any place between two items, if it may go round more
often than there are characters left. -/
theorem yields_run {l : Scanner} {n : Nat} (h : At v p r l.pos) (hn : r.length < n) :
    Yields v (run v l n) (some (l.items ++ scanFrom l.pos r)) := by
  induction n generalizing p r l with
  | zero => exact absurd hn (Nat.not_lt_zero _)
  | succ n ih =>
    rw [run, h.peek]
    cases r with
    | nil =>
      refine yields_of_eq ?_
      rw [scanFrom_nil, List.append_nil]
    | cons c r =>
      obtain ⟨b, bs, hb, hbs⟩ := exists_utf8_cons c r
      rw [hbs, List.head?_cons]
      have hspace : isSpaceByte b = isBlank c := sees_isSpaceByte.head hb
      cases hblank : isBlank c with
      | true =>
        have hround : Yields v (round v l b) { l with pos := l.pos + 1 } := by
          rw [round, hspace, hblank]
          exact yields_pure _
        refine hround.bind ?_
        rw [scanFrom_of_isBlank _ _ hblank]
        exact ih (h.succ (sees_isSpaceByte.utf8Size hblank)) (Nat.lt_of_succ_lt_succ hn)
      | false =>
        have hround : Yields v (round v l b)
            ⟨(first l.pos c r).stop, l.items ++ [first l.pos c r]⟩ := by
          rw [round, hspace, hblank]
          exact (yields_answer h hb).bind (yields_emit h)
        refine hround.bind ?_
        have hlt : (r.drop (lexeme c r).2.1).length < n := by
          rw [List.length_cons] at hn
          rw [List.length_drop]
          omega
        have hrun := ih (l := ⟨(first l.pos c r).stop, l.items ++ [first l.pos c r]⟩) h.first hlt
        rwa [List.append_assoc, List.singleton_append, ← scanFrom_of_not_isBlank _ _ hblank] at hrun

end Scanner

/-- **Items part a value.** Each item stands in the value from its offset to its end, both offsets of
characters, and is not empty; one ends before the next begins, and a byte outside all of them is that
of a blank. A number is a numeral and a unit, and no other item has a unit. The scanner on bytes finds
these items in no more rounds than there are bytes, and every offset at which it cuts is the offset of
a character or the end. -/
theorem scan_parts (v : Text) :
    (∀ i ∈ scan v, i.offset < i.stop ∧ v.sliceBytes? i.offset i.stop = some i.text) ∧
    ((scan v).Pairwise fun i j => i.stop ≤ j.offset) ∧
    (∀ (k : Nat) b, v.utf8[k]? = some b → (∀ i ∈ scan v, ¬ (i.offset ≤ k ∧ k < i.stop)) →
      b ∈ [' ', '\n', '\t', '\r', '\x0c'].map code) ∧
    (∀ i ∈ scan v, i.kind = .number →
      ∃ numeral, i.text = numeral ++ i.unit ∧ IsNumeral numeral ∧ IsUnit i.unit) ∧
    (∀ i ∈ scan v, i.kind ≠ .number → i.unit = []) ∧
    ∃ cuts, (Scanner.run v .start (v.byteLength + 1)).run [] = some (some (scan v), cuts) ∧
      ∀ n ∈ cuts, (v.splitBytes? n).isSome = true := by
  have hscans := scans_scanFrom 0 v
  refine ⟨fun i hi => ⟨(hscans.wellFormed i hi).offset_lt_stop, ?_⟩, hscans.pairwise,
    fun k b hb houtside => ?_, fun i hi => (hscans.wellFormed i hi).number,
    fun i hi => (hscans.wellFormed i hi).other, ?_⟩
  · obtain ⟨front, rest, hv, hoffset⟩ := hscans.standsIn i hi
    rw [Nat.zero_add] at hoffset
    rw [stop, hoffset, hv]
    exact sliceBytes?_append front i.text rest
  · rcases hscans.covers hb with ⟨i, hi, hle, hlt⟩ | hspace
    · rw [Nat.zero_add] at hle hlt
      exact absurd ⟨hle, hlt⟩ (houtside i hi)
    · rw [isSpaceByte, isOneOf, List.any_eq_true] at hspace
      obtain ⟨c, hc, hcode⟩ := hspace
      exact List.mem_map.2 ⟨c, hc, beq_iff_eq.1 hcode⟩
  · have hat : Scanner.At v [] v Scanner.start.pos := ⟨rfl, rfl⟩
    obtain ⟨cuts, hcuts, hrun⟩ :=
      Scanner.yields_run hat (Nat.lt_succ_of_le (length_le_byteLength v))
    exact ⟨cuts, by rw [hrun]; rfl, hcuts⟩

end LessStyle.Item
