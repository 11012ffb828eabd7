import LessStyle.Rule.Basic
import LessStyle.Value.Item

/-!
# Rules on spaces

`spaceBefore`: one space before an opening brace. `spaceAfter`: one space after the colon of a
declaration and after commas in its value. `spaceAround`: one space on both sides of an operator.
-/

namespace LessStyle.Rule

open Text

/-! ## Before braces -/

def spaceBeforeMessage : Text := "Must contain exactly one space before the `\x7b`".toList

/-- The findings on blocks with a selector and other than one space behind it, at the place behind the
selector. -/
def spaceBefore (page : Page) (sheet : Sheet) : List Finding :=
  (sheet.blocks.filter fun b => !b.selector.isEmpty && b.between != [' ']).map fun b =>
    let p := b.span.first.behind b.selector
    page.reportSegment p.line p.column ['{'] spaceBeforeMessage

/-! ## After colons and commas -/

/-- The statement reads as a selector with a pseudo-class, though it has the form of a
declaration. -/
def isSelectorLike (d : Declaration) : Bool :=
  match d.prop with
  | c :: _ => c == '&' || c == '.' || c == '#'
  | [] => false

/-- The space behind a comma is right: one space, or a line break among white space, or white space up
to the end. -/
def isGoodGap (s : Text) : Bool :=
  let gap := s.takeWhile isWhite
  gap == [' '] || gap.contains '\n' || gap.length = s.length

/-- The offset of the first comma with other space behind it, in a text at `offset`. -/
def badCommaFrom? (offset : Nat) : Text → Option Nat
  | [] => none
  | c :: s =>
    if c == ',' && !isGoodGap s then some offset else badCommaFrom? (offset + c.utf8Size) s

/-- The offset of the first comma of a value, literals apart, with wrong space behind it. -/
def badComma? (value : Text) : Option Nat := badCommaFrom? 0 (mask value)

def colonMessage : Text :=
  ("Disallow contain spaces between the `attr-name` and `:`, " ++
    "Must contain spaces between `:` and `attr-value`").toList

def commaMessage : Text := "Must contain spaces after `,` in `attr-value`".toList

/-- The finding on the colon of a declaration. -/
def colonFinding? (page : Page) (d : Declaration) : Option Finding :=
  if !isSelectorLike d && d.between != [':', ' '] then
    some (page.reportSegment d.span.first.line (d.span.first.column + d.prop.length) d.between
      colonMessage)
  else none

/-- The finding on the commas of a value. -/
def commaFinding? (page : Page) (d : Declaration) : Option Finding :=
  (badComma? d.value).map fun offset =>
    page.reportColumns d.span.first.line (d.columnAt offset) 1 commaMessage

/-- The findings on colons and commas, as far as the setting covers them. -/
def spaceAfter (setting : Setting) (page : Page) (sheet : Sheet) : List Finding :=
  sheet.declarations.flatMap fun d =>
    (if setting.includes [':'] then (colonFinding? page d).toList else []) ++
      (if setting.includes [','] then (commaFinding? page d).toList else [])

/-! ## Around operators -/

def spaceAroundMessage : Text :=
  "`+`, `-`, `*`, `/` operators must keep exactly one space on both sides".toList

/-- The slash between size and line height in a `font` declaration. -/
def isFontSlash (d : Declaration) (previous i next : Item) : Bool :=
  i.isOperator '/' && d.prop == "font".toList && previous.kind = .number && next.kind = .number

/-- One space stands between two items. -/
def isOneSpace (value : Text) (first second : Item) : Bool :=
  value.sliceBytes? first.stop second.offset == some [' ']

/-- The finding on an item with its neighbours: an operator between two operands that has not one space
on both sides. -/
def operatorFinding? (page : Page) (d : Declaration) (previous : Option Item) (i : Item)
    (next : Option Item) : Option Finding :=
  match previous, next with
  | some p, some n =>
    if i.kind = .operator && !Item.isSign d.value previous i next && !isFontSlash d p i n &&
        !(isOneSpace d.value p i && isOneSpace d.value i n) then
      some (page.quoteColumns d.span.first.line (d.columnAt i.offset) 1 spaceAroundMessage)
    else none
  | _, _ => none

/-- The findings on operators. -/
def spaceAround (page : Page) (sheet : Sheet) : List Finding :=
  sheet.declarations.flatMap fun d =>
    (Item.withNeighbours (Item.scan d.value)).filterMap fun (previous, i, next) =>
      operatorFinding? page d previous i next

end LessStyle.Rule
