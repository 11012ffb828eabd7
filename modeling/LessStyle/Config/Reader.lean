import LessStyle.Config.Basic
import LessStyle.Fault
import LessStyle.Json.Reader
import LessStyle.Number.Shortest
import LessStyle.Text.Quoted

/-!
# Reading a configuration

A configuration is a JSON object with a boolean, a string or a list of strings under each name; of two
entries of one name the later counts. An error says whether the text is no JSON or has another shape,
and where: a line, and the bytes read of that line.
-/

namespace LessStyle.Config

/-- Why a text is no configuration. -/
inductive Fault where
  /-- The text is no JSON. -/
  | syntaxFault (fault : Json.Fault)
  /-- The whole is something other than an object. -/
  | notObject (found : Text)
  /-- An entry is no boolean, string or list of strings. -/
  | notSetting
  deriving DecidableEq, Repr

/-- An error in a configuration and its place: the line, counted from one, and the bytes of that line up
to it. -/
structure Error where
  fault : Fault
  line : Nat
  column : Nat
  deriving DecidableEq, Repr

/-- The wording of a fault, without its place. -/
def Fault.message : Fault → Text
  | syntaxFault fault => "invalid JSON: ".toList ++ fault.message
  | notObject found =>
    "invalid rule options: invalid type: ".toList ++ found ++ ", expected a map".toList
  | notSetting =>
    ("invalid rule options: " ++
      "data did not match any variant of untagged enum RuleOption").toList

/-- The error with its place, which stands there in two forms. -/
def Error.message (e : Error) : Text :=
  e.fault.message ++ " at line ".toList ++ Text.decimal e.line ++ " column ".toList ++
    Text.decimal e.column ++ (Position.mk e.line e.column).phrase

/-- Line and bytes of the line after `n` bytes of a text; the text before is at `line` and
`column`. -/
def placeFrom (line column : Nat) : Nat → Text → Nat × Nat
  | _, [] => (line, column)
  | n, c :: s =>
    if n < c.utf8Size then (line, column + n)
    else if c == '\n' then placeFrom (line + 1) 0 (n - 1) s
    else placeFrom line (column + c.utf8Size) (n - c.utf8Size) s

/-- The error of a fault after `offset` bytes of a text. -/
def errorAt {α : Type} (s : Text) (fault : Fault) (offset : Nat) : Except Error α :=
  let (line, column) := placeFrom 1 0 offset s
  .error ⟨fault, line, column⟩

/-- A result of the JSON reader, with its failure placed in the text. -/
def located {α : Type} (s : Text) : Except Json.Failure α → Except Error α
  | .ok a => .ok a
  | .error e => errorAt s (.syntaxFault e.fault) e.offset

/-- The text of a string. -/
def stringText? : Json → Option Text
  | .string s => some s
  | _ => none

/-- The setting that a value stands for. -/
def setting? : Json → Option Setting
  | .bool b => some (.flag b)
  | .string s => some (.text s)
  | .list js => (js.mapM stringText?).map .items
  | _ => none

/-- How a value that is no object is named in an error. -/
def describe : Json → Text
  | .null => "null".toList
  | .bool b => ("boolean `" ++ (if b then "true" else "false") ++ "`").toList
  | .integer n =>
    "integer `".toList ++ (if n < 0 then ['-'] else []) ++ Text.decimal n.natAbs ++ ['`']
  | .float x => "floating point `".toList ++ x.text ++ ['`']
  | .string s => "string ".toList ++ s.quoted
  | .list _ => "sequence".toList
  | .object _ => "map".toList

/-- The bytes read when an entry is refused: after the blanks behind it, and the brace if one
follows. -/
def refusalOffset (c : Json.Cursor) : Nat :=
  let c := c.skipBlanks
  match c.rest with
  | '}' :: _ => c.offset + 1
  | _ => c.offset

/-- Steps enough for any text: of two steps of the reader one takes a character. -/
def fuelFor (s : Text) : Nat := 2 * s.length + 2

/-- The entries of an object after its opening brace, written into `config`. -/
def entries (s : Text) (fuel : Nat) (first : Bool) (config : Config) (c : Json.Cursor) :
    Except Error (Config × Json.Cursor) :=
  match fuel with
  | 0 => errorAt s (.syntaxFault .tooDeep) c.offset
  | fuel + 1 => do
    match ← located s (Json.key first c) with
    | .inr c => return (config, c)
    | .inl (name, c) =>
      let c ← located s (Json.colon c)
      let (j, c) ← located s (Json.value (fuelFor s) (Json.depthLimit - 1) c)
      match setting? j with
      | some setting => entries s fuel false (config.insert name setting) c
      | none => errorAt s .notSetting (refusalOffset c)

/-- The configuration that a text describes. -/
def ofJson (s : Text) : Except Error Config := do
  let c := (Json.Cursor.start s).skipBlanks
  match c.rest with
  | '{' :: _ =>
    let (config, c) ← entries s (fuelFor s) true .empty (c.skip 1)
    let c := c.skipBlanks
    if c.rest.isEmpty then return config
    else located s (c.failNext .trailingCharacters)
  | '[' :: _ => errorAt s (.notObject (describe (.list []))) c.offset
  | _ =>
    let (j, c) ← located s (Json.value (fuelFor s) Json.depthLimit c)
    errorAt s (.notObject (describe j)) c.offset

end LessStyle.Config
