import LessStyle.Dict
import LessStyle.Text.Blank
import LessStyle.Text.Position

/-!
# Stylesheets

The tree of a stylesheet. Every node keeps the text around it, `before`, `between` and `after`, so
that the source can be printed again from the tree and the rules about spacing have something to look
at.

A mixin call is a node of its own and has no children; a block with a selector and an at-rule with
braces have them. `Sheet.walk` lists all nodes in the order of the document, each with the number of
nodes around it.
-/

namespace LessStyle

/-- A parameter of a mixin. -/
structure Param where
  /-- The name without `@`; empty for a bare `...`. -/
  name : Text
  /-- The parameter takes all remaining arguments. -/
  variadic : Bool
  /-- The value if the call gives none. -/
  fallback : Option Text
  before : Text
  after : Text
  span : Span
  deriving DecidableEq, Repr

/-- What is remembered of the definition of a mixin. -/
structure Mixin where
  params : List Param
  definedAt : Position
  deriving DecidableEq, Repr

/-- `@name params`, closed by a semicolon or followed by a block. -/
structure AtRule where
  /-- The name without `@`. -/
  name : Text
  params : Text
  /-- The blanks after the name. -/
  afterName : Text
  /-- The blanks after the parameters. -/
  between : Text
  semicolon : Bool
  before : Text
  /-- The text before the closing brace. -/
  after : Text
  span : Span
  deriving DecidableEq, Repr

/-- The head of a block: a selector, or the definition of a mixin. -/
structure Block where
  selector : Text
  /-- Blanks and comments before the opening brace. -/
  between : Text
  /-- The parameters, if the block defines a mixin. -/
  params : Option (List Param)
  /-- The number of blocks around this one. -/
  level : Nat
  before : Text
  /-- The text before the closing brace. -/
  after : Text
  span : Span
  deriving DecidableEq, Repr

/-- A statement that calls a mixin. -/
structure Call where
  selector : Text
  semicolon : Bool
  /-- The number of blocks around the call. -/
  level : Nat
  before : Text
  span : Span
  deriving DecidableEq, Repr

/-- `prop: value`. -/
structure Declaration where
  prop : Text
  /-- The text from the property to the value, with the colon. -/
  between : Text
  /-- The value without comments and without white space at the end. -/
  value : Text
  /-- The value as it is written. -/
  rawValue : Text
  semicolon : Bool
  before : Text
  span : Span
  deriving DecidableEq, Repr

/-- A comment, with the white space inside its marks kept apart from its text. -/
structure Comment where
  text : Text
  /-- Written with `//`. -/
  inline : Bool
  left : Text
  right : Text
  before : Text
  span : Span
  deriving DecidableEq, Repr

/-- A part of a stylesheet. -/
inductive Node where
  /-- An at-rule without a block. -/
  | atRule (rule : AtRule)
  /-- An at-rule with a block. -/
  | atBlock (rule : AtRule) (children : List Node)
  | block (block : Block) (children : List Node)
  | call (call : Call)
  | declaration (declaration : Declaration)
  | comment (comment : Comment)
  deriving Repr

/-- A stylesheet. -/
structure Sheet where
  nodes : List Node
  /-- The text after the last node. -/
  after : Text
  /-- The mixins that the sheet defines, by name; of two definitions the later counts. -/
  mixins : Dict Mixin
  deriving Repr

namespace Declaration

/-- The declaration defines a variable. -/
def isVariable (d : Declaration) : Bool := d.prop.startsWith ['@']

/-- The column of the value, if everything before it stands on one line. -/
def valueColumn (d : Declaration) : Nat :=
  d.span.first.column + d.prop.length + d.between.length

/-- The column of the character at byte `offset` of the value. -/
def columnAt (d : Declaration) (offset : Nat) : Nat :=
  match d.value.splitBytes? offset with
  | some (front, _) => d.valueColumn + front.length
  | none => d.valueColumn + d.value.length

end Declaration

namespace Comment

/-- The comment as it is written. -/
def raw (c : Comment) : Text :=
  if c.inline then ['/', '/'] ++ c.left ++ c.text ++ c.right
  else ['/', '*'] ++ c.left ++ c.text ++ c.right ++ ['*', '/']

end Comment

namespace Node

/-- The span of a node. -/
def span : Node → Span
  | atRule r => r.span
  | atBlock r _ => r.span
  | block b _ => b.span
  | call c => c.span
  | declaration d => d.span
  | comment c => c.span

/-- The text before a node. -/
def before : Node → Text
  | atRule r => r.before
  | atBlock r _ => r.before
  | block b _ => b.before
  | call c => c.before
  | declaration d => d.before
  | comment c => c.before

/-- The nodes inside a node. -/
def children : Node → List Node
  | atBlock _ ns => ns
  | block _ ns => ns
  | _ => []

end Node

mutual

/-- A node and all nodes inside it, the outer before the inner, with the number of nodes around
each. -/
def Node.walk (depth : Nat) : Node → List (Node × Nat)
  | .atBlock r ns => (.atBlock r ns, depth) :: Node.walkList (depth + 1) ns
  | .block b ns => (.block b ns, depth) :: Node.walkList (depth + 1) ns
  | n => [(n, depth)]

/-- The walk over consecutive nodes. -/
def Node.walkList (depth : Nat) : List Node → List (Node × Nat)
  | [] => []
  | n :: ns => n.walk depth ++ Node.walkList depth ns

end

namespace Sheet

/-- All nodes in the order of the document, with the number of nodes around each. -/
def walk (s : Sheet) : List (Node × Nat) := Node.walkList 0 s.nodes

/-- The declarations in the order of the document. -/
def declarations (s : Sheet) : List Declaration :=
  s.walk.filterMap fun
    | (.declaration d, _) => some d
    | _ => none

/-- The blocks in the order of the document. -/
def blocks (s : Sheet) : List Block :=
  s.walk.filterMap fun
    | (.block b _, _) => some b
    | _ => none

/-- The at-rules in the order of the document, with or without a block. -/
def atRules (s : Sheet) : List AtRule :=
  s.walk.filterMap fun
    | (.atRule r, _) => some r
    | (.atBlock r _, _) => some r
    | _ => none

end Sheet

end LessStyle
