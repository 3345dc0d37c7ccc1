import ModuleAtlas.Regex.Template
import ModuleAtlas.Notice
import ModuleAtlas.Settings

/-!
# Cleaning type texts

Type texts for a reader: without the qualifiers that name a module, with verbose wrappers replaced
by the wrapper rules one after the other, and with each run of blanks as one.
-/

namespace ModuleAtlas.Shape

/-- A qualifier that names the module of a type. -/
def moduleQualifier : Regex.Pattern := Regex.Pattern.ofText "import\\(\"[^\"]+\"\\)\\."

/-- The wrapper rules that can be used. -/
structure Cleaner where
  rules : List (Regex.Expression × String)

namespace Cleaner

/-- The cleaner of wrapper rules. A rule whose pattern is no regular expression is left out. -/
def ofRules (rules : List (String × String)) : Cleaner :=
  ⟨rules.filterMap fun rule =>
    (Regex.Expression.parse rule.1).toOption.map fun expression => (expression, rule.2)⟩

/-- The notices about the rules that are left out. -/
def notices (rules : List (String × String)) : List Notice :=
  rules.filterMap fun rule =>
    match Regex.Expression.parse rule.1 with
    | .ok _ => none
    | .error fault => some (.invalidWrapper rule.1 fault)

/-- The text with the wrapper rules applied in order. -/
def applyRules (text : String) : List (Regex.Expression × String) → Except Regex.Fault String
  | [] => .ok text
  | (expression, replacement) :: rest =>
    match expression.replace replacement text with
    | .ok replaced => applyRules replaced rest
    | .error fault => .error fault

/-- The text of a type as it is shown. -/
def clean (cleaner : Cleaner) (text : String) : Except Regex.Fault String :=
  (applyRules (moduleQualifier.replaceBy "" text) cleaner.rules).map Text.collapse

end Cleaner

end ModuleAtlas.Shape
