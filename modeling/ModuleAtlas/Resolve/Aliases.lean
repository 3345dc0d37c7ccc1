import ModuleAtlas.Path

/-!
# Path aliases

Patterns that map import specifiers to paths. A pattern has at most one star that counts, the first
one; a pattern without a star matches only itself.
-/

namespace ModuleAtlas.Resolve

/-- The path aliases in effect in a directory: where bare specifiers are looked for, where the
targets of the patterns start from, and the patterns with their targets. -/
structure Aliases where
  base : Option Path
  patternBase : Path
  patterns : List (String × List String)
deriving Repr, DecidableEq

namespace Aliases

/-- The best wildcard match so far: the targets, the text that the star stands for, and the length
of the text before the star. -/
abbrev Best := Option (List String × String × Nat)

/-- The text that the star of a pattern stands for in a specifier. -/
def capture? (start finish specifier : List Char) : Option (List Char) :=
  if specifier.length ≥ start.length + finish.length && start.isPrefixOf specifier
      && finish.isSuffixOf specifier then
    some ((specifier.drop start.length).take (specifier.length - start.length - finish.length))
  else none

/-- The match of a specifier among patterns, given the best wildcard match before them. -/
def matchFrom (specifier : String) : Best → List (String × List String) →
    Option (List String × String)
  | best, [] => best.map fun found => (found.1, found.2.1)
  | best, (pattern, targets) :: rest =>
    match Text.cutFirst? '*' pattern.toList with
    | none =>
      if pattern == specifier then some (targets, "") else matchFrom specifier best rest
    | some (start, finish) =>
      match capture? start finish specifier.toList with
      | none => matchFrom specifier best rest
      | some captured =>
        let better :=
          match best with
          | none => true
          | some found => found.2.2 < start.length
        if better then
          matchFrom specifier (some (targets, String.ofList captured, start.length)) rest
        else matchFrom specifier best rest

/-- The targets of the best pattern for a specifier and the text that its star stands for. A pattern
without a star wins; otherwise the first one with the longest text before the star does. -/
def match? (aliases : Aliases) (specifier : String) : Option (List String × String) :=
  matchFrom specifier none aliases.patterns

end Aliases

end ModuleAtlas.Resolve
