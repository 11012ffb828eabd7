import LessStyle.Rule.Basic

/-!
# Rules on names

`importPath`: the path of an import stands in quotes, in the same quotes all over the file, and ends in
`.less`. `variableName`: the name of a variable is made of lower-case letters, digits and dashes.
-/

namespace LessStyle.Rule

open Text

/-! ## Imports -/

/-- The parameters of an import without options in parentheses in front. -/
def withoutOptions (params : Text) : Text :=
  match params with
  | '(' :: s =>
    match cutAt? ')' s with
    | some (_, rest) => rest.trimStart
    | none => params
  | _ => params

/-- The first word of a text, between white space. -/
def firstWord (s : Text) : Text := (trimStart s).takeWhile (!isWhite ·)

/-- The path in an import without proper quotes: its first word without `url(`, `)` and quotes. -/
def barePath (s : Text) : Text :=
  let word := firstWord s
  let isMark (c : Char) : Bool := c == '"' || c == '\''
  let inner :=
    if word.startsWith ['u', 'r', 'l', '('] then dropEndWhile (· == ')') (word.drop 4) else word
  dropEndWhile isMark (inner.dropWhile isMark)

/-- What an import names: its quote, if there is a closed pair, and its path. -/
def importTarget (params : Text) : Option Char × Text :=
  let s := withoutOptions params
  match s with
  | c :: r =>
    match if c == '"' || c == '\'' then cutAt? c r else none with
    | some (path, _) => (some c, path)
    | none => (none, barePath s)
  | [] => (none, barePath s)

/-- The imports of a sheet. -/
def imports (sheet : Sheet) : List AtRule :=
  sheet.atRules.filter fun r => r.name == "import".toList

def importQuoteMessage : Text :=
  "@import path must be wrapped in a pair of quotation marks".toList

def importSameQuoteMessage (first : Char) : Text :=
  "Quotes must be the same in the same file, Current file the first quote is `".toList ++ [first, '`']

def importSuffixMessage : Text := ".less suffix must not be omitted".toList

/-- The findings on one import, where `first` is the first quote of the file. -/
def importFindings (page : Page) (first : Option Char) (r : AtRule) : List Finding :=
  let line := r.span.first.line
  let column := r.span.first.column + 1 + r.name.length + r.afterName.length
  let (quote, path) := importTarget r.params
  let onQuote :=
    match quote with
    | none => [page.quoteSegment line column r.params importQuoteMessage]
    | some q =>
      let first := first.getD q
      if q = first then [] else [page.quoteSegment line column [q] (importSameQuoteMessage first)]
  onQuote ++
    if path.endsWith ".less".toList then []
    else [page.quoteSegment line column path importSuffixMessage]

/-- The findings on imports. -/
def importPath (page : Page) (sheet : Sheet) : List Finding :=
  let first := (imports sheet).findSome? fun r => (importTarget r.params).1
  (imports sheet).flatMap (importFindings page first)

/-! ## Variables -/

/-- A name of lower-case letters, digits and dashes after its `@`. -/
def isVariableName : Text → Bool
  | '@' :: s => !s.isEmpty && s.all fun c => c.isLower || c.isDigit || c == '-'
  | _ => false

def variableNameMessage : Text := "Variable name must be like this `@foo-bar or @foobar`".toList

/-- The findings on definitions of variables with other names. -/
def variableName (page : Page) (sheet : Sheet) : List Finding :=
  (sheet.declarations.filter fun d => d.isVariable && !isVariableName d.prop).map fun d =>
    page.quoteSegment d.span.first.line d.span.first.column d.prop variableNameMessage

end LessStyle.Rule
