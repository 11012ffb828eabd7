import LessStyle.Sheet.Basic

/-!
# Printing a stylesheet

The text of a tree: every node writes the text before it, itself, and what closes it.
-/

namespace LessStyle

/-- `;`, or nothing. -/
def semicolonText (present : Bool) : Text := if present then [';'] else []

mutual

/-- The text of a node, with the text before it. -/
def Node.print : Node → Text
  | .atRule r =>
    r.before ++ '@' :: r.name ++ r.afterName ++ r.params ++ r.between ++ semicolonText r.semicolon
  | .atBlock r ns =>
    r.before ++ '@' :: r.name ++ r.afterName ++ r.params ++ r.between ++
      '{' :: Node.printList ns ++ r.after ++ ['}']
  | .block b ns =>
    b.before ++ b.selector ++ b.between ++ '{' :: Node.printList ns ++ b.after ++ ['}']
  | .call c => c.before ++ c.selector ++ semicolonText c.semicolon
  | .declaration d => d.before ++ d.prop ++ d.between ++ d.rawValue ++ semicolonText d.semicolon
  | .comment c => c.before ++ c.raw

/-- The text of consecutive nodes. -/
def Node.printList : List Node → Text
  | [] => []
  | n :: ns => n.print ++ Node.printList ns

end

/-- The text of a stylesheet. -/
def Sheet.print (s : Sheet) : Text := Node.printList s.nodes ++ s.after

end LessStyle
