import LessStyle.Rule.Basic
import LessStyle.Rule.Pattern
import LessStyle.Value.Literal
import LessStyle.Value.Part

/-!
# Rules on colours

`hexColor`: a colour is written in hexadecimal digits, not by its name or by a colour function.
`shorthandColor`: three digits instead of six where each digit is doubled.
-/

namespace LessStyle.Rule

open Text

/-- The names of colours. -/
def colorNames : List Text :=
  ["aliceblue", "antiquewhite", "aqua", "aquamarine", "azure", "beige", "bisque", "black",
    "blanchedalmond", "blue", "blueviolet", "brown", "burlywood", "cadetblue", "chartreuse",
    "chocolate", "coral", "cornflowerblue", "cornsilk", "crimson", "cyan", "darkblue", "darkcyan",
    "darkgoldenrod", "darkgray", "darkgrey", "darkgreen", "darkkhaki", "darkmagenta",
    "darkolivegreen", "darkorange", "darkorchid", "darkred", "darksalmon", "darkseagreen",
    "darkslateblue", "darkslategray", "darkslategrey", "darkturquoise", "darkviolet", "deeppink",
    "deepskyblue", "dimgray", "dimgrey", "dodgerblue", "firebrick", "floralwhite", "forestgreen",
    "fuchsia", "gainsboro", "ghostwhite", "gold", "goldenrod", "gray", "grey", "green",
    "greenyellow", "honeydew", "hotpink", "indianred", "indigo", "ivory", "khaki", "lavender",
    "lavenderblush", "lawngreen", "lemonchiffon", "lightblue", "lightcoral", "lightcyan",
    "lightgoldenrodyellow", "lightgray", "lightgrey", "lightgreen", "lightpink", "lightsalmon",
    "lightseagreen", "lightskyblue", "lightslategray", "lightslategrey", "lightsteelblue",
    "lightyellow", "lime", "limegreen", "linen", "magenta", "maroon", "mediumaquamarine",
    "mediumblue", "mediumorchid", "mediumpurple", "mediumseagreen", "mediumslateblue",
    "mediumspringgreen", "mediumturquoise", "mediumvioletred", "midnightblue", "mintcream",
    "mistyrose", "moccasin", "navajowhite", "navy", "oldlace", "olive", "olivedrab", "orange",
    "orangered", "orchid", "palegoldenrod", "palegreen", "paleturquoise", "palevioletred",
    "papayawhip", "peachpuff", "peru", "pink", "plum", "powderblue", "purple", "rebeccapurple",
    "red", "rosybrown", "royalblue", "saddlebrown", "salmon", "sandybrown", "seagreen", "seashell",
    "sienna", "silver", "skyblue", "slateblue", "slategray", "slategrey", "snow", "springgreen",
    "steelblue", "tan", "teal", "thistle", "tomato", "turquoise", "violet", "wheat", "white",
    "whitesmoke", "yellow", "yellowgreen"].map String.toList

/-- The lower-case letter that `c` is a form of, by simple case folding: the Kelvin sign is a `k` and
the long s an `s`. Characters that fold to no letter from a to z stay as they are. -/
def foldCase (c : Char) : Char :=
  if c == '\u212a' then 'k' else if c == '\u017f' then 's' else c.toLower

/-- The width of a colour name, in any case, that no word character, dash or parenthesis continues. A
name before a parenthesis is a function. -/
def colorNameWidth? (s : Text) : Option Nat :=
  colorNames.findSome? fun name =>
    if (s.take name.length).map foldCase == name &&
        endsOr (fun c => !(isWord c || c == '(' || c == '-')) (s.drop name.length) then
      some name.length
    else none

/-- The first colour name in a text, with its offset. -/
def colorName? (s : Text) : Option (Nat × Text) :=
  findPattern? (fun c => !(isWord c || c == '@' || c == '-')) colorNameWidth? s

/-- The width of the name of a colour function with its parenthesis. -/
def colorFunctionWidth? (s : Text) : Option Nat :=
  if ["rgb(", "hsl(", "hsv("].any fun f => f.toList.isPrefixOf s then some 4 else none

/-- The first colour function in a text, with its offset. -/
def colorFunction? (s : Text) : Option (Nat × Text) :=
  findPattern? (fun c => !(isWord c || c == '-')) colorFunctionWidth? s

/-- The width of what an `@` refers to: braces with their contents, or a name. -/
def referenceWidth? (s : Text) : Option Nat :=
  match s with
  | '{' :: s => (through? '}' s).map (· + 1)
  | s =>
    let n := (s.takeWhile fun c => isWord c || c == '-').length
    if n = 0 then none else some n

/-- The width of a reference to a variable after its first `@`; a second `@` may follow. -/
def variableWidth? (s : Text) : Option Nat :=
  match s with
  | '@' :: s => (referenceWidth? s).map (· + 1)
  | s => referenceWidth? s

/-- The text with its references to variables blanked out, one space for each byte. -/
def maskVariables (s : Text) : Text :=
  match s with
  | [] => []
  | c :: s =>
    match if c == '@' then variableWidth? s else none with
    | some n => spacesFor (c :: s.take n) ++ maskVariables (s.drop n)
    | none => c :: maskVariables s
termination_by s.length
decreasing_by all_goals simp only [List.length_drop, List.length_cons]; omega

def hexColorMessage : Text :=
  ("Color value must use the hexadecimal mark forms such as `#RRGGBB`. " ++
    "Don't use RGB, HSL expression").toList

/-- The findings on colour names and colour functions in values, literals and variables apart; at most
one of each for a declaration. -/
def hexColor (page : Page) (sheet : Sheet) : List Finding :=
  sheet.declarations.flatMap fun d =>
    let masked := maskVariables (mask d.value)
    ((colorName? masked).toList ++ (colorFunction? masked).toList).map fun (offset, found) =>
      page.quoteSegment d.span.first.line (d.columnAt offset) found hexColorMessage

/-! ## Colours of six digits -/

/-- A hexadecimal digit. -/
def isHexDigit (c : Char) : Bool :=
  c.isDigit || ('a' ≤ c && c ≤ 'f') || ('A' ≤ c && c ≤ 'F')

/-- Six digits in three pairs of equal ones. -/
def isDoubled : Text → Bool
  | [a, b, c, d, e, f] =>
    a.toLower == b.toLower && c.toLower == d.toLower && e.toLower == f.toLower
  | _ => false

/-- The offset of the first `#` whose run of hexadecimal digits is six long and doubled, in a text at
`offset`. -/
def abbreviable? (offset : Nat) : Text → Option Nat
  | [] => none
  | c :: s =>
    if c == '#' && isDoubled (s.takeWhile isHexDigit) then some offset
    else abbreviable? (offset + c.utf8Size) s

def shorthandColorMessage : Text :=
  "Color value can be abbreviated, must use the abbreviation form".toList

/-- The findings on values with a colour that can be written shorter; one for a line. -/
def shorthandColor (page : Page) (sheet : Sheet) : List Finding :=
  Finding.onePerLine 0 <| sheet.declarations.filterMap fun d =>
    ((splitSpace d.value).findSome? fun p => abbreviable? p.offset p.text).map fun offset =>
      page.reportColumns d.span.first.line (d.columnAt offset) 7 shorthandColorMessage

end LessStyle.Rule
