import ModuleAtlas.Text.Classes

/-!
# Texts of literals

Texts that are literal types on sight: a string in quotes that do not occur inside it, a number
without an exponent, or a truth value.
-/

namespace ModuleAtlas.Shape

/-- The text after one or more digits. -/
def afterDigits? (text : List Char) : Option (List Char) :=
  if (text.head?.map Text.isDigit).getD false then some (text.dropWhile Text.isDigit) else none

/-- Whether nothing is left of a text but at most one line end. -/
def isEnd (text : List Char) : Bool := text.isEmpty || text == ['\n']

/-- Whether a text is a number: an optional sign, digits and an optional fraction. -/
def isNumberText (text : List Char) : Bool :=
  let unsigned :=
    match text with
    | '-' :: rest => rest
    | rest => rest
  match afterDigits? unsigned with
  | none => false
  | some ('.' :: places) =>
    match afterDigits? places with
    | some rest => isEnd rest
    | none => false
  | some rest => isEnd rest

/-- The quote that a text of at least two characters starts and ends with. -/
def surroundingQuote? (text : List Char) : Option Char :=
  match text with
  | quote :: rest =>
    if (quote == '"' || quote == '\'') && rest.getLast? == some quote then some quote else none
  | [] => none

/-- Whether a text is the text of a literal type. A quote that occurs again inside the text is not
the quote of one literal. -/
def isLiteralText (text : String) : Bool :=
  let chars := text.toList
  match surroundingQuote? chars with
  | some quote => !(chars.tail.dropLast.contains quote)
  | none => isNumberText chars || text == "true" || text == "false"

end ModuleAtlas.Shape
