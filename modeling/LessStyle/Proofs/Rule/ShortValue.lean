import LessStyle.Proofs.Rule.Alias
import LessStyle.Proofs.Rule.OncePerLine
import LessStyle.Proofs.Sheet.Columns
import LessStyle.Proofs.Sheet.Order
import LessStyle.Proofs.Value.Part
import Mathlib.Order.Bounds.Basic

/-!
# Values that can be written shorter

A zero needs no unit, and a colour of three doubled digits needs only three. Both are looked for in the
values of declarations, one after another. `ZeroWithUnit` and `ColorAt` say what is looked for;
`hasZeroUnit_iff` and `findSome?_abbreviable?_iff` say that it is found, the colour at its first place.
Declarations come in the order of their lines, so a line with several of them is reported once, for the
first one (`oncePerLine_declarations`).
-/

namespace LessStyle.Rule

open Text

/-! ## Zeros -/

/-- A pattern with a boundary matches somewhere. -/
theorem isSome_findFrom?_iff {opens : Char → Bool} {width? : Text → Option Nat}
    {previous : Option Char} {offset : Nat} {s : Text} :
    (findFrom? opens width? previous offset s).isSome = true ↔
      ∃ a c b, s = a ++ c :: b ∧ (a.getLast?.or previous).all opens = true ∧
        (width? (c :: b)).isSome = true := by
  induction s generalizing previous offset with
  | nil => simp [findFrom?]
  | cons d s ih =>
    -- what stands before the rest of the text is `d`, whatever stood before that
    have hlast : ∀ a : Text, (d :: a).getLast?.or previous = a.getLast?.or (some d) := by
      intro a
      rw [List.getLast?_cons]
      cases a.getLast? <;> rfl
    rw [findFrom?]
    split
    · next n hn =>
      split at hn
      · next hopens => simpa using ⟨[], d, s, rfl, hopens, by rw [hn]; rfl⟩
      · cases hn
    · next hn =>
      rw [ih]
      constructor
      · rintro ⟨a, c, b, rfl, hopens, hwidth⟩
        exact ⟨d :: a, c, b, rfl, by rwa [hlast], hwidth⟩
      · rintro ⟨a, c, b, hs, hopens, hwidth⟩
        cases a with
        | nil =>
          obtain ⟨rfl, rfl⟩ := List.cons.inj hs
          rw [if_pos (by simpa using hopens)] at hn
          rw [hn] at hwidth
          cases hwidth
        | cons e a =>
          obtain ⟨rfl, rfl⟩ := List.cons.inj hs
          exact ⟨a, c, b, rfl, by rwa [← hlast], hwidth⟩

/-- A zero with a unit of length: no word character and no dot stands before the zero, at most one
white space between the two, and no word character or percent sign behind the unit. -/
def ZeroWithUnit (s : Text) : Prop :=
  ∃ before gap unit after, s = before ++ '0' :: (gap ++ (unit ++ after)) ∧
    (∀ c ∈ before.getLast?, isWord c = false ∧ c ≠ '.') ∧
    (gap.length ≤ 1 ∧ ∀ c ∈ gap, isWhite c = true) ∧ unit ∈ lengthUnits ∧
    ∀ c ∈ after.head?, isWord c = false ∧ c ≠ '%'

theorem isSome_unitWidth?_iff {s : Text} : (unitWidth? s).isSome = true ↔
    ∃ unit ∈ lengthUnits, ∃ after, s = unit ++ after ∧
      ∀ c ∈ after.head?, isWord c = false ∧ c ≠ '%' := by
  have hends : ∀ after : Text, endsOr (fun c => !(isWord c || c == '%')) after = true ↔
      ∀ c ∈ after.head?, isWord c = false ∧ c ≠ '%' := by
    intro after
    cases after <;> simp [endsOr]
  rw [unitWidth?, List.findSome?_isSome_iff]
  constructor
  · rintro ⟨unit, hunit, h⟩
    split at h
    · next hif =>
      rw [Bool.and_eq_true, List.isPrefixOf_iff_prefix] at hif
      obtain ⟨⟨after, rfl⟩, hafter⟩ := hif
      rw [List.drop_left, hends] at hafter
      exact ⟨unit, hunit, after, rfl, hafter⟩
    · cases h
  · rintro ⟨unit, hunit, after, rfl, hafter⟩
    refine ⟨unit, hunit, ?_⟩
    rw [List.drop_left, (hends after).2 hafter, if_pos (by simp)]
    rfl

/-- No unit begins with white space. -/
theorem head?_of_mem_lengthUnits : ∀ unit ∈ lengthUnits, unit.head?.map isWhite = some false := by
  decide

theorem isSome_zeroWidth?_iff {s : Text} : (zeroWidth? s).isSome = true ↔
    ∃ gap rest, s = '0' :: (gap ++ rest) ∧ (gap.length ≤ 1 ∧ ∀ c ∈ gap, isWhite c = true) ∧
      (unitWidth? rest).isSome = true := by
  constructor
  · intro h
    unfold zeroWidth? at h
    split at h
    · next c s =>
      split at h
      · next hc => exact ⟨[c], s, rfl, ⟨Nat.le_refl 1, by simpa using hc⟩, by simpa using h⟩
      · exact ⟨[], c :: s, rfl, ⟨Nat.zero_le 1, by simp⟩, by simpa using h⟩
    · cases h
  · rintro ⟨gap, rest, rfl, ⟨hlen, hwhite⟩, hunit⟩
    match gap with
    | [] =>
      obtain ⟨unit, hmem, after, rfl, -⟩ := isSome_unitWidth?_iff.1 hunit
      obtain ⟨c, hhead, hc⟩ := Option.map_eq_some_iff.1 (head?_of_mem_lengthUnits unit hmem)
      obtain ⟨u, rfl⟩ := List.head?_eq_some_iff.1 hhead
      simpa [zeroWidth?, hc] using hunit
    | [c] => simpa [zeroWidth?, hwhite c (by simp)] using hunit
    | c :: d :: gap => simp at hlen

/-- **A zero with a unit is found where there is one.** -/
theorem hasZeroUnit_iff (s : Text) : hasZeroUnit s = true ↔ ZeroWithUnit s := by
  have hopens : ∀ before : Text,
      (before.getLast?.or none).all (fun c => !(isWord c || c == '.')) = true ↔
        ∀ c ∈ before.getLast?, isWord c = false ∧ c ≠ '.' := by
    intro before
    cases before.getLast? <;> simp
  rw [hasZeroUnit, findPattern?, isSome_findFrom?_iff]
  constructor
  · rintro ⟨before, c, b, rfl, hbefore, hzero⟩
    obtain ⟨gap, rest, hrest, hgap, hunit⟩ := isSome_zeroWidth?_iff.1 hzero
    obtain ⟨unit, hmem, after, rfl, hafter⟩ := isSome_unitWidth?_iff.1 hunit
    exact ⟨before, gap, unit, after, by rw [hrest], (hopens before).1 hbefore, hgap, hmem, hafter⟩
  · rintro ⟨before, gap, unit, after, rfl, hbefore, hgap, hmem, hafter⟩
    have hunit := isSome_unitWidth?_iff.2 ⟨unit, hmem, after, rfl, hafter⟩
    exact ⟨before, '0', gap ++ (unit ++ after), rfl, (hopens before).2 hbefore,
      isSome_zeroWidth?_iff.2 ⟨gap, unit ++ after, rfl, hgap, hunit⟩⟩

/-! ## Colours -/

/-- The text begins with exactly six hexadecimal digits, which are three pairs of equal ones if upper
and lower case are not told apart. -/
def DoubledDigits (s : Text) : Prop :=
  ∃ x x' y y' z z' rest, s = x :: x' :: y :: y' :: z :: z' :: rest ∧
    (∀ c ∈ [x, x', y, y', z, z'], isHexDigit c = true) ∧
    (∀ c ∈ rest.head?, isHexDigit c = false) ∧
    x.toLower = x'.toLower ∧ y.toLower = y'.toLower ∧ z.toLower = z'.toLower

theorem isDoubled_takeWhile_iff (s : Text) :
    isDoubled (s.takeWhile isHexDigit) = true ↔ DoubledDigits s := by
  constructor
  · intro h
    have hsplit := List.takeWhile_append_dropWhile (p := isHexDigit) (l := s)
    have hdigits : ∀ c ∈ s.takeWhile isHexDigit, isHexDigit c = true :=
      fun c hc => List.mem_takeWhile_imp hc
    have hrest := List.head?_dropWhile_not isHexDigit s
    unfold isDoubled at h
    split at h
    · next x x' y y' z z' heq =>
      rw [heq] at hsplit hdigits
      simp only [Bool.and_eq_true, beq_iff_eq] at h
      obtain ⟨⟨hx, hy⟩, hz⟩ := h
      refine ⟨x, x', y, y', z, z', s.dropWhile isHexDigit, hsplit.symm, hdigits, ?_, hx, hy, hz⟩
      intro c hc
      rw [Option.mem_def.1 hc] at hrest
      simpa using hrest
    · cases h
  · rintro ⟨x, x', y, y', z, z', rest, rfl, hdigits, hrest, hx, hy, hz⟩
    rw [show x :: x' :: y :: y' :: z :: z' :: rest = [x, x', y, y', z, z'] ++ rest from rfl,
      takeWhile_append_eq_left hdigits hrest]
    simp [isDoubled, hx, hy, hz]

/-- A search has found the least element of a set, or nothing in an empty one. -/
inductive FindsFirst (S : Set Nat) : Option Nat → Prop where
  | missing (empty : ∀ o, o ∉ S) : FindsFirst S none
  | found {o : Nat} (least : IsLeast S o) : FindsFirst S (some o)

theorem FindsFirst.eq_some_iff {S : Set Nat} {r : Option Nat} (h : FindsFirst S r) {o : Nat} :
    r = some o ↔ IsLeast S o := by
  cases h with
  | missing empty => exact ⟨nofun, fun least => absurd least.1 (empty o)⟩
  | found least =>
    rw [Option.some.injEq]
    constructor
    · rintro rfl
      exact least
    · exact least.unique

/-- One search after another. -/
theorem FindsFirst.or {S T : Set Nat} {r r' : Option Nat} (h : FindsFirst S r)
    (h' : FindsFirst T r') (hle : ∀ a ∈ S, ∀ b ∈ T, a ≤ b) : FindsFirst (S ∪ T) (r.or r') := by
  cases h with
  | missing empty =>
    rw [Set.eq_empty_iff_forall_notMem.2 empty, Set.empty_union]
    exact h'
  | found least =>
    refine .found ⟨.inl least.1, ?_⟩
    rintro o (ho | ho)
    · exact least.2 ho
    · exact hle _ least.1 o ho

/-- In a text that begins at `offset` there is a colour at `o`. -/
def ColorIn (offset : Nat) (s : Text) (o : Nat) : Prop :=
  ∃ front digits, s = front ++ '#' :: digits ∧ DoubledDigits digits ∧ o = offset + front.byteLength

theorem ColorIn.bounds {offset : Nat} {s : Text} {o : Nat} (h : ColorIn offset s o) :
    offset ≤ o ∧ o ≤ offset + s.byteLength := by
  obtain ⟨front, digits, rfl, -, rfl⟩ := h
  rw [byteLength_append]
  omega

theorem colorIn_cons {offset : Nat} {c : Char} {s : Text} {o : Nat} :
    ColorIn offset (c :: s) o ↔
      (c = '#' ∧ DoubledDigits s ∧ o = offset) ∨ ColorIn (offset + c.utf8Size) s o := by
  constructor
  · rintro ⟨front, digits, hs, hdoubled, rfl⟩
    cases front with
    | nil =>
      obtain ⟨rfl, rfl⟩ := List.cons.inj hs
      exact .inl ⟨rfl, hdoubled, rfl⟩
    | cons d front =>
      obtain ⟨rfl, rfl⟩ := List.cons.inj hs
      refine .inr ⟨front, digits, rfl, hdoubled, ?_⟩
      rw [byteLength_cons, Nat.add_assoc]
  · rintro (⟨rfl, hdoubled, rfl⟩ | ⟨front, digits, rfl, hdoubled, rfl⟩)
    · exact ⟨[], s, rfl, hdoubled, rfl⟩
    · refine ⟨c :: front, digits, rfl, hdoubled, ?_⟩
      rw [byteLength_cons, Nat.add_assoc]

theorem findsFirst_abbreviable? (offset : Nat) (s : Text) :
    FindsFirst {o | ColorIn offset s o} (abbreviable? offset s) := by
  induction s generalizing offset with
  | nil =>
    refine .missing ?_
    rintro o ⟨front, digits, hs, -⟩
    simp at hs
  | cons c s ih =>
    have hhere : FindsFirst {o | c = '#' ∧ DoubledDigits s ∧ o = offset}
        (if c == '#' && isDoubled (s.takeWhile isHexDigit) then some offset else none) := by
      split
      · next hc =>
        rw [Bool.and_eq_true, beq_iff_eq, isDoubled_takeWhile_iff] at hc
        exact .found ⟨⟨hc.1, hc.2, rfl⟩, fun o ho => ho.2.2.ge⟩
      · next hc =>
        rw [Bool.and_eq_true, beq_iff_eq, isDoubled_takeWhile_iff] at hc
        exact .missing fun o ho => hc ⟨ho.1, ho.2.1⟩
    have hsets : {o | ColorIn offset (c :: s) o} =
        {o | c = '#' ∧ DoubledDigits s ∧ o = offset} ∪ {o | ColorIn (offset + c.utf8Size) s o} :=
      Set.ext fun o => colorIn_cons
    -- a colour here comes before all colours further on
    have hor : abbreviable? offset (c :: s) =
        (if c == '#' && isDoubled (s.takeWhile isHexDigit) then some offset else none).or
          (abbreviable? (offset + c.utf8Size) s) := by
      rw [abbreviable?]
      split <;> rfl
    rw [hsets, hor]
    refine hhere.or (ih _) ?_
    rintro a ⟨-, -, rfl⟩ b hb
    have hbounds := ColorIn.bounds hb
    omega

/-- A colour of a value, in one of the parts between its blanks. -/
def ColorAt (v : Text) (o : Nat) : Prop := ∃ p ∈ splitSpace v, ColorIn p.offset p.text o

theorem findsFirst_findSome? {ps : List Part}
    (h : ps.Pairwise fun p q => p.offset + p.text.byteLength < q.offset) :
    FindsFirst {o | ∃ p ∈ ps, ColorIn p.offset p.text o}
      (ps.findSome? fun p => abbreviable? p.offset p.text) := by
  induction h with
  | nil => exact .missing (by simp)
  | @cons p ps hlt hps ih =>
    have hsets : {o | ∃ q ∈ p :: ps, ColorIn q.offset q.text o} =
        {o | ColorIn p.offset p.text o} ∪ {o | ∃ q ∈ ps, ColorIn q.offset q.text o} := by
      ext o
      simp
    have hor : ((p :: ps).findSome? fun p => abbreviable? p.offset p.text) =
        (abbreviable? p.offset p.text).or (ps.findSome? fun p => abbreviable? p.offset p.text) := by
      rw [List.findSome?_cons]
      cases abbreviable? p.offset p.text <;> rfl
    rw [hsets, hor]
    refine (findsFirst_abbreviable? _ _).or ih ?_
    rintro a ha b ⟨q, hq, hb⟩
    have hend := (ColorIn.bounds ha).2
    have hstart := (ColorIn.bounds hb).1
    have hgap := hlt q hq
    omega

/-- **The first colour of a value that can be abbreviated.** -/
theorem findSome?_abbreviable?_iff (v : Text) (o : Nat) :
    ((splitSpace v).findSome? fun p => abbreviable? p.offset p.text) = some o ↔
      IsLeast {o | ColorAt v o} o :=
  (findsFirst_findSome? (Part.pairwise_split _ v)).eq_some_iff

/-- A colour begins with a number sign in the value. -/
theorem ColorAt.exists_value {v : Text} {o : Nat} (h : ColorAt v o) :
    ∃ front rest, v = front ++ '#' :: rest ∧ o = front.byteLength := by
  obtain ⟨p, hp, front, digits, htext, -, rfl⟩ := h
  obtain ⟨before, after, rfl, hoffset⟩ := Part.standsIn_of_mem_split hp
  refine ⟨before ++ front, digits ++ after, ?_, ?_⟩
  · simp [htext]
  · rw [hoffset, byteLength_append, Nat.zero_add]

/-! ## Reports -/

/-- A declaration that begins on a line, with a column for which `P` holds. -/
def OnLine (P : Declaration → Nat → Prop) (d : Declaration) (line column : Nat) : Prop :=
  d.span.first.line = line ∧ P d column

/-- A record with this message and column. -/
def ShowsColumn (message : Text) (column : Nat) (d : Diagnostic) : Prop :=
  d.column = some column ∧ d.message = message

section

variable {s : Text} {ts : List Token} {sheet : Sheet}

/-- A rule on declarations that finds the column of each, if there is one, reports once for a line. -/
theorem oncePerLine_declarations (hlex : Token.Lexed .start .start s ts)
    (hsheet : Sheet.ofTokens ts = .ok sheet) {P : Declaration → Nat → Prop}
    {g : Declaration → Option Finding} {message : Text} (name : Text)
    (hunique : ∀ d c c', P d c → P d c' → c' = c) (hfinds : ∀ d c, P d c → ∃ f, g d = some f)
    (hfound : ∀ d f, g d = some f →
      f.line = d.span.first.line ∧ P d f.column ∧ f.message = message) :
    Diagnostic.OncePerLine sheet.declarations (OnLine P) (ShowsColumn message)
      ((Finding.onePerLine 0 (sheet.declarations.filterMap g)).map (·.toDiagnostic name)) := by
  rw [List.filterMap_eq_flatMap_toList]
  refine Diagnostic.oncePerLine_flatMap ?_ ?_ ?_ ?_ ?_
  · refine List.pairwise_flatMap.2 ⟨?_, (Sheet.pairwise_declarations hlex hsheet).imp ?_⟩
    · intro d _
      cases g d with
      | none => exact .nil
      | some f => exact List.pairwise_singleton _ _
    · intro d d' hle f hf f' hf'
      rw [(hfound d f (Option.mem_toList.1 hf)).1, (hfound d' f' (Option.mem_toList.1 hf')).1]
      exact hle
  · intro d hd f hf
    obtain ⟨depth, hn⟩ := Sheet.exists_mem_walk_of_mem_declarations hd
    rw [(hfound d f (Option.mem_toList.1 hf)).1]
    exact Sheet.one_le_line hlex hsheet hn
  · rintro d _ line c c' ⟨-, hc⟩ ⟨-, hc'⟩
    exact hunique d c c' hc hc'
  · rintro d _ line c ⟨hline, hc⟩
    obtain ⟨f, hf⟩ := hfinds d c hc
    exact ⟨f, Option.mem_toList.2 hf, (hfound d f hf).1.trans hline⟩
  · intro d _ f hf
    obtain ⟨hline, hP, hmessage⟩ := hfound d f (Option.mem_toList.1 hf)
    exact ⟨f.column, ⟨hline.symm, hP⟩, rfl, hmessage⟩

/-- The value has a zero with a unit, literals apart; the column is that of the value. -/
def HasZero (d : Declaration) (column : Nat) : Prop :=
  ZeroWithUnit (mask d.value) ∧ column = d.valueColumn

/-- The value has a colour that can be abbreviated; the column is that of the first one. -/
def HasColor (d : Declaration) (column : Nat) : Prop :=
  ∃ o, IsLeast {o | ColorAt d.value o} o ∧ column = d.columnAt o

theorem oncePerLine_zeroUnit (hlex : Token.Lexed .start .start s ts)
    (hsheet : Sheet.ofTokens ts = .ok sheet) (page : Page) (name : Text) :
    Diagnostic.OncePerLine sheet.declarations (OnLine HasZero) (ShowsColumn zeroUnitMessage)
      ((zeroUnit page sheet).map (·.toDiagnostic name)) := by
  have hfindings : zeroUnit page sheet = Finding.onePerLine 0 (sheet.declarations.filterMap fun d =>
      if hasZeroUnit (mask d.value) then
        some (page.reportSegment d.span.first.line d.valueColumn d.value zeroUnitMessage)
      else none) := by
    rw [zeroUnit, ← List.filterMap_eq_map, List.filterMap_filter]
    rfl
  rw [hfindings]
  refine oncePerLine_declarations hlex hsheet name ?_ ?_ ?_
  · rintro d c c' ⟨-, rfl⟩ ⟨-, rfl⟩
    rfl
  · rintro d c ⟨hzero, -⟩
    exact ⟨_, if_pos ((hasZeroUnit_iff _).2 hzero)⟩
  · intro d f hf
    split at hf
    · next hzero =>
      obtain rfl := Option.some.inj hf
      exact ⟨rfl, ⟨(hasZeroUnit_iff _).1 hzero, rfl⟩, rfl⟩
    · cases hf

theorem oncePerLine_shorthandColor (hlex : Token.Lexed .start .start s ts)
    (hsheet : Sheet.ofTokens ts = .ok sheet) (page : Page) (name : Text) :
    Diagnostic.OncePerLine sheet.declarations (OnLine HasColor) (ShowsColumn shorthandColorMessage)
      ((shorthandColor page sheet).map (·.toDiagnostic name)) := by
  refine oncePerLine_declarations hlex hsheet name ?_ ?_ ?_
  · rintro d c c' ⟨o, ho, rfl⟩ ⟨o', ho', rfl⟩
    rw [ho.unique ho']
  · rintro d c ⟨o, ho, -⟩
    rw [← findSome?_abbreviable?_iff] at ho
    exact ⟨_, congrArg (Option.map _) ho⟩
  · intro d f hf
    obtain ⟨o, ho, rfl⟩ := Option.map_eq_some_iff.1 hf
    exact ⟨rfl, ⟨o, (findSome?_abbreviable?_iff _ o).1 ho, rfl⟩, rfl⟩

end

/-- **Values that can be written shorter are reported once for each line.** Let a file be read from the
text `s`. If the rule on zeros is enabled, the lines of its records go strictly upwards, and they are
the lines on which a declaration begins whose value, literals apart, has a zero with a unit. The column
is that of the value of the first such declaration on the line. In the same way the rule on colours
reports the declarations with a colour that can be abbreviated, in the column of the first one; if the
declaration stands on one line, the number sign of the colour stands there in the text. -/
theorem shortValues_oncePerLine {s : Text} {file : File} (hread : File.read s = .ok file)
    (config : Config) :
    (∀ setting, config.enabled? "zero-unit".toList = some setting →
      Diagnostic.OncePerLine file.sheet.declarations (OnLine HasZero) (ShowsColumn zeroUnitMessage)
        ((runAll config file).filter (·.rule = "zero-unit".toList))) ∧
    (∀ setting, config.enabled? "shorthand-color".toList = some setting →
      Diagnostic.OncePerLine file.sheet.declarations (OnLine HasColor)
        (ShowsColumn shorthandColorMessage)
        ((runAll config file).filter (·.rule = "shorthand-color".toList))) ∧
    ∀ d ∈ file.sheet.declarations, d.OneLine → ∀ o, ColorAt d.value o →
      ∃ l, s.line? d.span.first.line = some l ∧ l[d.columnAt o - 1]? = some '#' := by
  obtain ⟨-, hts, hsheet⟩ := File.eq_of_read hread
  have hlex := Token.lexed_of_tokensFrom hts
  refine ⟨fun setting henabled => ?_, fun setting henabled => ?_, fun d hd hone o ho => ?_⟩
  · have hmem : onSheet "zero-unit" zeroUnit ∈ all := by
      simp [all]
    rw [filter_runAll_onSheet hmem henabled]
    exact oncePerLine_zeroUnit hlex hsheet file.page _
  · have hmem : onSheet "shorthand-color" shorthandColor ∈ all := by
      simp [all]
    rw [filter_runAll_onSheet hmem henabled]
    exact oncePerLine_shorthandColor hlex hsheet file.page _
  · obtain ⟨front, rest, hvalue, rfl⟩ := ho.exists_value
    exact Sheet.exists_line_columnAt hlex hsheet hd hone hvalue

/-- Two zeros on the first line, and on the second a colour among values that are none. -/
def lengthy : Text := "a\x7bb: 0px; c: 0 em;\nd: \"0px\" #abc #AAbbcC; e: #112233;\n\x7d".toList

/-- The first declaration on the second line. -/
def painted : Declaration where
  prop := "d".toList
  between := ": ".toList
  value := "\"0px\" #abc #AAbbcC".toList
  rawValue := "\"0px\" #abc #AAbbcC".toList
  semicolon := true
  before := "\n".toList
  span := ⟨⟨2, 1⟩, ⟨2, 22⟩⟩

/-- Zeros and colours. -/
def shortConfig : Config :=
  Dict.ofList (["zero-unit", "shorthand-color"].map fun name => (name.toList, .flag true))

theorem shortValues_oncePerLine_lengthy :
    ∃ file zeros colors l, File.read lengthy = .ok file ∧
      shortConfig.enabled? "zero-unit".toList = some (.flag true) ∧
      shortConfig.enabled? "shorthand-color".toList = some (.flag true) ∧
      (runAll shortConfig file).filter (·.rule = "zero-unit".toList) = zeros ∧
      (runAll shortConfig file).filter (·.rule = "shorthand-color".toList) = colors ∧
      zeros.map (fun d => (d.line, d.column)) = [(1, some 6)] ∧
      colors.map (fun d => (d.line, d.column)) = [(2, some 15)] ∧
      Diagnostic.OncePerLine file.sheet.declarations (OnLine HasZero)
        (ShowsColumn zeroUnitMessage) zeros ∧
      Diagnostic.OncePerLine file.sheet.declarations (OnLine HasColor)
        (ShowsColumn shorthandColorMessage) colors ∧
      painted ∈ file.sheet.declarations ∧ painted.OneLine ∧ ColorAt painted.value 11 ∧
      lengthy.line? 2 = some l ∧ l[14]? = some '#' := by
  obtain ⟨file, hread, heval⟩ := File.exists_of_eval (s := lengthy)
    (f := fun file =>
      (((runAll shortConfig file).filter (·.rule = "zero-unit".toList)).map fun d =>
          (d.line, d.column),
        ((runAll shortConfig file).filter (·.rule = "shorthand-color".toList)).map fun d =>
          (d.line, d.column),
        decide (painted ∈ file.sheet.declarations)))
    (a := ([(1, some 6)], [(2, some 15)], true)) (by decide +kernel)
  simp only [Prod.mk.injEq, decide_eq_true_eq] at heval
  obtain ⟨hzeros, hcolors, hd⟩ := heval
  have hzero : shortConfig.enabled? "zero-unit".toList = some (.flag true) := by decide
  have hcolor : shortConfig.enabled? "shorthand-color".toList = some (.flag true) := by decide
  have hone : painted.OneLine := ⟨by decide, by decide, by decide, List.prefix_rfl⟩
  have hat : ColorAt painted.value 11 :=
    ((findSome?_abbreviable?_iff painted.value 11).1 (by decide)).1
  obtain ⟨hzeroUnit, hshorthand, hsign⟩ := shortValues_oncePerLine hread shortConfig
  obtain ⟨l, hl, hchar⟩ := hsign painted hd hone 11 hat
  rw [show painted.columnAt 11 = 15 by decide] at hchar
  exact ⟨file, _, _, l, hread, hzero, hcolor, rfl, rfl, hzeros, hcolors, hzeroUnit _ hzero,
    hshorthand _ hcolor, hd, hone, hat, hl, hchar⟩

end LessStyle.Rule
