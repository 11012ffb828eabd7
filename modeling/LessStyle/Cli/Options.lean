import LessStyle.Text.Basic

/-!
# Arguments of the command line

The arguments are read from left to right, and the first that is wrong, or asks for help or for the
version, decides.
-/

namespace LessStyle.Cli

/-- The form of the report. -/
inductive Format where
  | text
  | json
  deriving DecidableEq, Repr

/-- What the arguments ask for. -/
structure Options where
  /-- The files and directories to check, the latest first. -/
  paths : List Text
  config : Option Text
  format : Option Format
  noColor : Bool
  deriving DecidableEq, Repr

/-- No arguments. -/
def Options.none : Options := ⟨[], Option.none, Option.none, false⟩

/-- The result of reading the arguments. -/
inductive Request where
  | run (options : Options)
  | version
  | help
  /-- Arguments that make no sense. -/
  | wrong
  deriving DecidableEq, Repr

/-- An argument that names an option and is no value. -/
def looksLikeOption (a : Text) : Bool := a.startsWith ['-'] && a.length > 1

/-- One more path, which must not be empty. -/
def Options.addPath? (o : Options) (a : Text) : Option Options :=
  if a.isEmpty then Option.none else some { o with paths := a :: o.paths }

/-- An option that takes a value, with its value. Each may be given once. -/
def Options.set? (o : Options) (name value : Text) : Option Options :=
  if name == "config".toList then
    if value.isEmpty || o.config.isSome then Option.none else some { o with config := some value }
  else if o.format.isSome then Option.none
  else if value == "text".toList then some { o with format := some .text }
  else if value == "json".toList then some { o with format := some .json }
  else Option.none

/-- The options that take a value. -/
def takesValue (name : Text) : Bool := name == "config".toList || name == "format".toList

/-- Paths only, after `--`. -/
def pathsOnly (o : Options) : List Text → Request
  | [] => .run o
  | a :: as =>
    match o.addPath? a with
    | some o => pathsOnly o as
    | none => .wrong

/-- Read the arguments after those in `o`. -/
def readFrom (o : Options) : List Text → Request
  | [] => .run o
  | a :: as =>
    match a with
    | ['-', '-'] => pathsOnly o as
    | '-' :: '-' :: long =>
      match Text.cutAt? '=' long with
      | some (name, value) =>
        if takesValue name then
          match o.set? name value with
          | some o => readFrom o as
          | none => .wrong
        else .wrong
      | none =>
        if takesValue long then
          match as with
          | [] => .wrong
          | value :: as =>
            if looksLikeOption value then .wrong
            else
              match o.set? long value with
              | some o => readFrom o as
              | none => .wrong
        else if long == "no-color".toList then
          if o.noColor then .wrong else readFrom { o with noColor := true } as
        else if long == "version".toList then .version
        else if long == "help".toList then .help
        else .wrong
    | '-' :: 'V' :: _ => .version
    | '-' :: 'h' :: _ => .help
    | ['-'] => readFrom { o with paths := a :: o.paths } as
    | '-' :: _ => .wrong
    | a =>
      match o.addPath? a with
      | some o => readFrom o as
      | none => .wrong

/-- What the arguments ask for. -/
def read (args : List Text) : Request := readFrom .none args

/-- The paths in the order they were given; the working directory if none was. -/
def Options.roots (o : Options) : List Text :=
  if o.paths.isEmpty then [['.']] else o.paths.reverse

end LessStyle.Cli
