import LessStyle.Rule.Basic
import LessStyle.Value.Item

/-!
# The rule on units

`sameUnit`: the two operands of a sum or a difference have the same unit. The unit of a variable is not
known; the other operand must then have one.
-/

namespace LessStyle.Rule

/-- The operand that breaks the rule. -/
def oddOperand? (previous next : Item) : Option Item :=
  match previous.kind, next.kind with
  | .number, .number => if previous.unit != next.unit then some next else none
  | .variable, .number => if next.unit.isEmpty then some next else none
  | .number, .variable => if previous.unit.isEmpty then some previous else none
  | _, _ => none

def sameUnitMessage : Text :=
  ("`+`, `-` on both sides of the operand must have the same unit, " ++
    "if one side has unit, the other side must has unit").toList

/-- The finding on an item with its neighbours. -/
def unitFinding? (page : Page) (d : Declaration) (previous : Option Item) (i : Item)
    (next : Option Item) : Option Finding :=
  match previous, next with
  | some p, some n =>
    if (i.isOperator '+' || i.isOperator '-') && !Item.isSign d.value previous i next then
      (oddOperand? p n).map fun odd =>
        page.quoteColumns d.span.first.line (d.columnAt odd.offset) odd.text.length sameUnitMessage
    else none
  | _, _ => none

/-- The findings on sums and differences. -/
def sameUnit (page : Page) (sheet : Sheet) : List Finding :=
  sheet.declarations.flatMap fun d =>
    (Item.withNeighbours (Item.scan d.value)).filterMap fun (previous, i, next) =>
      unitFinding? page d previous i next

end LessStyle.Rule
