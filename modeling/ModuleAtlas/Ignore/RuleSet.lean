import ModuleAtlas.Task

/-!
# Ignore rules

Rules from ignore files in several directories, rewritten so that one set of patterns relative to
the root of a project answers for all of them. The rules of the version control system's own files
and those of the settings come after the rules of the project.
-/

namespace ModuleAtlas.Ignore

/-- A pattern line and the directory of the file that it stands in. -/
structure Rule where
  pattern : String
  origin : Path
deriving Repr, DecidableEq

/-- Patterns that hold in every project. -/
def alwaysIgnored : List String :=
  [".git", ".git/**", "**/.git", "**/.git/**", ".eslintcache", "**/.eslintcache"]

/-- A pattern of a directory, given by its way from the root, as patterns of the root. A directory
above the root hands on only patterns that are not anchored. -/
def rebase (origin : String) (negation body : String) : List String :=
  if origin == "." then [negation ++ body]
  else if Text.startsWith ".." origin then
    if Text.startsWith "/" body then [] else [negation ++ body, negation ++ "**/" ++ body]
  else if Text.startsWith "/" body then [negation ++ origin ++ body]
  else [negation ++ origin ++ "/**/" ++ body]

/-- The patterns of the root that a rule stands for. -/
def Rule.normalize (rule : Rule) (root : Path) : List String :=
  let negated := Text.startsWith "!" rule.pattern
  let body := if negated then Text.dropChars 1 rule.pattern else rule.pattern
  let body := if Text.startsWith "./" body then Text.dropChars 2 body else body
  if body.isEmpty then []
  else
    let origin :=
      Path.relativeText (Path.normalNames root.names) (Path.normalNames rule.origin.names)
    rebase origin (if negated then "!" else "") body

/-- A compiled set of rules. -/
structure RuleSet where
  root : Path
  rules : List Rule
  patterns : List String
  matchers : List Matcher

namespace RuleSet

/-- All patterns of a set of rules in order: those of the rules, those that always hold, and the
extra ones. -/
def allPatterns (rules : List Rule) (root : Path) (extra : List String) : List String :=
  rules.flatMap (fun rule => rule.normalize root) ++ alwaysIgnored ++ extra

/-- Compiles rules for a root, with extra patterns after them. -/
def compile (rules : List Rule) (root : Path) (extra : List String) :
    Except PatternFault RuleSet := do
  let patterns := allPatterns rules root extra
  let matchers ← (patterns.filter (!·.isEmpty)).mapM Matcher.compile
  return ⟨root, rules, patterns, matchers.filterMap id⟩

/-- Whether a path, given by its way from the root, is ignored when matches are weighed by a
rule. -/
def ignoresRelativeBy (set : RuleSet) (weigh : Matcher.Weighing) (way : String)
    (isDirectory : Bool) : Bool :=
  if way == "." || way == ".." || Text.startsWith "../" way then false
  else
    let subject := if isDirectory then way ++ "/" else way
    (Matcher.verdictBy? weigh set.matchers subject).getD false

/-- Whether a path is ignored when matches are weighed by a rule. Nothing outside the root is. -/
def ignoresBy (set : RuleSet) (weigh : Matcher.Weighing) (path : Path) (isDirectory : Bool) :
    Bool :=
  set.ignoresRelativeBy weigh
    (Path.relativeText (Path.normalNames set.root.names) (Path.normalNames path.names)) isDirectory

/-- Whether a path is ignored. -/
def ignores (set : RuleSet) (path : Path) (isDirectory : Bool) : Bool :=
  set.ignoresBy Matcher.itselfFirst path isDirectory

end RuleSet

end ModuleAtlas.Ignore
