import ModuleAtlas.Json.Value
import ModuleAtlas.Text.Basic

/-!
# JSON with comments

Removal of what a configuration file may have beyond JSON: line comments, block comments and a
comma right before a closing bracket. Strings are stepped over as a whole, so nothing inside them
is taken for a comment; an unclosed string or comment is ordinary text.
-/

namespace ModuleAtlas.Json.Comments

/-- The length of the rest of a string, its closing quote included. -/
def stringLength? : List Char → Option Nat
  | [] => none
  | '"' :: _ => some 1
  | ['\\'] => none
  | '\\' :: _ :: rest => (stringLength? rest).map (· + 2)
  | _ :: rest => (stringLength? rest).map (· + 1)

/-- The length of the rest of a line. -/
def lineLength : List Char → Nat
  | [] => 0
  | c :: rest => if c = '\n' then 0 else lineLength rest + 1

/-- The length of the rest of a block comment, its end included. -/
def blockLength? : List Char → Option Nat
  | [] => none
  | '*' :: '/' :: _ => some 2
  | _ :: rest => (blockLength? rest).map (· + 1)

/-- Whether the next character after blanks closes an array or an object. -/
def closes (text : List Char) : Bool :=
  match text.dropWhile Text.isBlank with
  | c :: _ => c == '}' || c == ']'
  | [] => false

/-- How many characters from the first one on belong together, and whether they are kept. -/
def token (c : Char) (rest : List Char) : Bool × Nat :=
  match c with
  | '"' =>
    match stringLength? rest with
    | some length => (true, length)
    | none => (true, 0)
  | '/' =>
    match rest with
    | '/' :: rest => (false, lineLength rest + 1)
    | '*' :: rest =>
      match blockLength? rest with
      | some length => (false, length + 1)
      | none => (true, 0)
    | _ => (true, 0)
  | ',' => (!closes rest, 0)
  | _ => (true, 0)

/-- The text with the next `count` characters kept or dropped and the rest scanned. -/
def scan (keep : Bool) : Nat → List Char → List Char
  | _, [] => []
  | count + 1, c :: rest => if keep then c :: scan keep count rest else scan keep count rest
  | 0, c :: rest =>
    let next := token c rest
    if next.1 then c :: scan true next.2 rest else scan false next.2 rest

end Comments

/-- The text without its comments and without commas before a closing bracket. -/
def stripComments (text : List Char) : List Char := Comments.scan true 0 text

end ModuleAtlas.Json
