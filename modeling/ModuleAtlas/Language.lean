import ModuleAtlas.Path

/-!
# Languages

The two dialects of source files, told by the end of the file name.
-/

namespace ModuleAtlas

/-- A dialect of source files. -/
inductive Language where
  | plain
  | markup
deriving Repr, DecidableEq, Inhabited

namespace Language

/-- The name of a dialect. -/
def name : Language → String
  | .plain => "typescript"
  | .markup => "tsx"

/-- The dialects of file name endings. -/
def endings : List (String × Language) :=
  [(".ts", .plain), (".mts", .plain), (".cts", .plain), (".tsx", .markup), (".js", .markup),
    (".jsx", .markup), (".mjs", .markup), (".cjs", .markup)]

/-- The dialect of a file, if it is a source file. Capital letters in the ending do not matter. -/
def ofPath? (path : Path) : Option Language := endings.lookup (Text.lower path.suffix)

/-- The endings of source files in a project, as they are written. -/
def sourceEndings : List String := endings.map (·.1)

end Language

end ModuleAtlas
