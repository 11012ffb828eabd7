import LessStyle.Rule.Color
import LessStyle.Rule.Layout
import LessStyle.Rule.Naming
import LessStyle.Rule.Number
import LessStyle.Rule.Spacing
import LessStyle.Rule.Unit

/-!
# All rules

The rules with their names, in the order they run. The rule on comments has two names.
-/

namespace LessStyle.Rule

/-- A rule that reads the tree and whose setting only turns it on or off. -/
def onSheet (name : String) (findings : Page → Sheet → List Finding) : Rule :=
  ⟨name.toList, .sheet fun _ => findings⟩

/-- The rules in the order they run. -/
def all : List Rule :=
  [onSheet "zero-unit" zeroUnit,
    onSheet "hex-color" hexColor,
    onSheet "shorthand-color" shorthandColor,
    onSheet "leading-zero" leadingZero,
    onSheet "import" importPath,
    onSheet "variable-name" variableName,
    ⟨"require-before-space".toList, .sheet fun setting page sheet =>
      if setting.includes ['{'] then spaceBefore page sheet else []⟩,
    ⟨"require-after-space".toList, .sheet spaceAfter⟩,
    onSheet "require-around-space" spaceAround,
    onSheet "require-newline" oneSelectorPerLine,
    onSheet "block-indent" blockIndent,
    ⟨"single-comment".toList, .tokens lineComments⟩,
    ⟨"comment".toList, .tokens lineComments⟩,
    onSheet "operate-unit" sameUnit]

/-- The rule with a name. -/
def find? (name : Text) : Option Rule := all.find? (·.name == name)

/-- The records of all rules under a configuration, rule after rule. -/
def runAll (config : Config) (file : File) : List Diagnostic :=
  all.flatMap (·.run config file)

end LessStyle.Rule

/-- Every rule with its usual setting: on, or the list of what it covers. -/
def LessStyle.Config.default : Config :=
  Dict.ofList <| Rule.all.map fun r =>
    (r.name,
      if r.name == "require-after-space".toList then .items [[':'], [',']]
      else if r.name == "require-before-space".toList then .items [['{']]
      else .flag true)
