import ModuleAtlas.Json.Value
import ModuleAtlas.Text.Basic

/-!
# Writing JSON

Values one item to a line with two blanks for each level. Characters beyond the control characters,
the quote and the backslash are written as they are.
-/

namespace ModuleAtlas.Json

namespace Printer

/-- A hexadecimal digit in small letters. -/
def hexDigit (value : Nat) : Char := "0123456789abcdef".toList.getD value '0'

/-- Four hexadecimal digits. -/
def hex4 (value : Nat) : List Char :=
  [hexDigit (value / 4096 % 16), hexDigit (value / 256 % 16), hexDigit (value / 16 % 16),
    hexDigit (value % 16)]

/-- A character as it stands inside a string. -/
def escape (c : Char) : List Char :=
  match c with
  | '"' => ['\\', '"']
  | '\\' => ['\\', '\\']
  | '\n' => ['\\', 'n']
  | '\r' => ['\\', 'r']
  | '\t' => ['\\', 't']
  | '\x08' => ['\\', 'b']
  | '\x0c' => ['\\', 'f']
  | c => if c.toNat < 0x20 then '\\' :: 'u' :: hex4 c.toNat else [c]

/-- A string with its quotes. -/
def quote (text : String) : String := String.ofList ('"' :: text.toList.flatMap escape ++ ['"'])

/-- A line end and the indentation of a level. -/
def newline (level : Nat) : String := "\n" ++ Text.repeated (2 * level) ' '

mutual

/-- A value at a level of indentation. -/
def value (level : Nat) : Json → String
  | .null => "null"
  | .bool true => "true"
  | .bool false => "false"
  | .int value => toString value
  | .decimal literal => literal
  | .string text => quote text
  | .array [] => "[]"
  | .array (item :: rest) =>
    "[" ++ newline (level + 1) ++ Text.join ("," ++ newline (level + 1))
      (value (level + 1) item :: items (level + 1) rest) ++ newline level ++ "]"
  | .object [] => "\x7b\x7d"
  | .object ((key, item) :: rest) =>
    "\x7b" ++ newline (level + 1) ++ Text.join ("," ++ newline (level + 1))
      ((quote key ++ ": " ++ value (level + 1) item) :: entries (level + 1) rest)
      ++ newline level ++ "\x7d"

/-- Items at a level of indentation. -/
def items (level : Nat) : List Json → List String
  | [] => []
  | item :: rest => value level item :: items level rest

/-- Entries at a level of indentation. -/
def entries (level : Nat) : List (String × Json) → List String
  | [] => []
  | (key, item) :: rest => (quote key ++ ": " ++ value level item) :: entries level rest

end

end Printer

/-- The indented text of a value. -/
def render (value : Json) : String := Printer.value 0 value

end ModuleAtlas.Json
