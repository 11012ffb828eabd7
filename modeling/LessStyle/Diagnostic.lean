import LessStyle.Fault
import LessStyle.Json.Printer

/-!
# Diagnostics

What is reported about a file: which rule, where, and what. A rule can be known under two names; its
records then carry the same key, and `dedup` keeps the first record of each key.
-/

namespace LessStyle

/-- A record about a place in a file. -/
structure Diagnostic where
  /-- The name of the rule. -/
  rule : Text
  line : Nat
  column : Option Nat
  message : Text
  /-- The message with the line in colour. -/
  highlighted : Option Text
  /-- Records with the same key are the same finding. -/
  key : Option Text
  deriving DecidableEq, Repr

namespace Diagnostic

/-- The message, in colour if that is wanted and there is one. -/
def display (d : Diagnostic) (color : Bool) : Text :=
  if color then d.highlighted.getD d.message else d.message

/-- The key of a record, unless it is empty. -/
def dedupKey (d : Diagnostic) : Option Text := d.key.filter (!·.isEmpty)

/-- Without the records whose key is in `seen` or is that of an earlier record. -/
def dedupFrom (seen : List Text) : List Diagnostic → List Diagnostic
  | [] => []
  | d :: ds =>
    match d.dedupKey with
    | some key => if seen.contains key then dedupFrom seen ds else d :: dedupFrom (key :: seen) ds
    | none => d :: dedupFrom seen ds

/-- The first record of each key, and all records without one. -/
def dedup (ds : List Diagnostic) : List Diagnostic := dedupFrom [] ds

/-- The record as it is exported; an absent column is left out. -/
def toJson (d : Diagnostic) : Json :=
  .object <|
    [("rule".toList, .string d.rule), ("line".toList, .integer d.line)] ++
      (d.column.map fun c => ("col".toList, .integer c)).toList ++
      [("message".toList, .string d.message)]

end Diagnostic

end LessStyle
