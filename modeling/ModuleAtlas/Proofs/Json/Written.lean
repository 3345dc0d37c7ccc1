import ModuleAtlas.Json.Comments
import ModuleAtlas.Json.Parser

/-!
# Written documents

JSON documents as they are laid out: the tokens of a value in order, white space and comments
between any two of them, and a comma after the last element of an array or object where the author
liked one.  A written document has a text and a value; neither is defined through a reader.
-/

namespace ModuleAtlas
namespace Json

/-! ## What stands between tokens -/

/-- White space, a comment up to the end of its line, or a comment up to its closing mark. -/
inductive Filler where
  | blank (c : Char) (isSpace : Parser.isSpace c = true)
  | line (text : List Char) (inLine : '\n' ∉ text)
  | block (text : List Char) (unclosed : Text.containsChars ['*', '/'] text = false)

/-- What stands between two tokens. -/
abbrev Gap := List Filler

/-- The text of a filler. -/
def Filler.text : Filler → List Char
  | .blank c _ => [c]
  | .line text _ => '/' :: '/' :: text ++ ['\n']
  | .block text _ => '/' :: '*' :: text ++ ['*', '/']

/-- What is left of a filler without comments; the line of a comment still ends. -/
def Filler.bare : Filler → List Char
  | .blank c _ => [c]
  | .line _ _ => ['\n']
  | .block _ _ => []

/-- Whether a filler is white space. -/
def Filler.isBlank : Filler → Bool
  | .blank _ _ => true
  | _ => false

namespace Gap

/-- The text of a gap. -/
def text (gap : Gap) : List Char := gap.flatMap Filler.text

/-- What is left of a gap without comments. -/
def bare (gap : Gap) : List Char := gap.flatMap Filler.bare

/-- Whether a gap has no comment. -/
def isBlank (gap : Gap) : Bool := gap.all Filler.isBlank

end Gap

/-! ## Strings -/

/-- A character of a string as it is written: itself, a backslash and a letter, or the digits of a
code unit. -/
inductive Piece where
  | plain (c : Char) (usual : 0x20 ≤ c.toNat ∧ c ≠ '"' ∧ c ≠ '\\')
  | escape (letter meant : Char) (known : Parser.escaped? letter = some meant)
  | unit (a b c d : Char) (code : Nat) (known : Text.hexValue? [a, b, c, d] = some code)

/-- The text of a written character. -/
def Piece.text : Piece → List Char
  | .plain c _ => [c]
  | .escape letter _ _ => ['\\', letter]
  | .unit a b c d _ _ => ['\\', 'u', a, b, c, d]

namespace Piece

/-- The text of a string with its quotes. -/
def quoted (pieces : List Piece) : List Char := '"' :: pieces.flatMap text ++ ['"']

/-- The characters that are meant.  Two code units that are the halves of a pair mean one of them.
-/
def meaning : List Piece → List Char
  | [] => []
  | .plain c _ :: rest => c :: meaning rest
  | .escape _ c _ :: rest => c :: meaning rest
  | .unit _ _ _ _ high _ :: .unit a b c d low known :: rest =>
    if Text.isHighHalf high && Text.isLowHalf low then
      Char.ofNat (0x10000 + (high - 0xD800) * 0x400 + (low - 0xDC00)) :: meaning rest
    else Text.ofCode high :: meaning (.unit a b c d low known :: rest)
  | .unit _ _ _ _ code _ :: rest => Text.ofCode code :: meaning rest

end Piece

/-! ## Numbers -/

/-- Digits, at least one. -/
structure Digits where
  chars : List Char
  nonempty : chars ≠ []
  digits : ∀ c ∈ chars, c.isDigit = true

/-- A written exponent. -/
structure Exponent where
  letter : Char
  sign : List Char
  power : Digits
  isLetter : letter = 'e' ∨ letter = 'E'
  isSign : sign = [] ∨ sign = ['+'] ∨ sign = ['-']

/-- A written number.  A zero in front stands alone, and a number without places and exponent is no
longer than whole numbers may be. -/
structure Numeral where
  negative : Bool
  whole : Digits
  places : Option Digits
  exponent : Option Exponent
  leading : ∀ rest, whole.chars = '0' :: rest → rest = []
  short : places = none → exponent = none → whole.chars.length ≤ digitLimit

namespace Numeral

/-- The point and the digits after it. -/
def placesText : Option Digits → List Char
  | none => []
  | some digits => '.' :: digits.chars

/-- The letter of an exponent with its sign and its digits. -/
def exponentText : Option Exponent → List Char
  | none => []
  | some exponent => exponent.letter :: exponent.sign ++ exponent.power.chars

/-- The text of a number. -/
def text (numeral : Numeral) : List Char :=
  (if numeral.negative then ['-'] else []) ++ numeral.whole.chars ++ placesText numeral.places
    ++ exponentText numeral.exponent

/-- The value of a number.  One with places or an exponent is kept as it is written. -/
def value (numeral : Numeral) : Json :=
  if numeral.places.isNone && numeral.exponent.isNone then
    let size : Int := Text.natOf numeral.whole.chars
    .int (if numeral.negative then -size else size)
  else .decimal (String.ofList numeral.text)

end Numeral

/-! ## Values -/

/-- The key of an entry, with what stands on both sides of its colon. -/
structure Label where
  key : List Piece
  before : Gap
  after : Gap

mutual

/-- A value as it is written. -/
inductive Written where
  | null
  | truth (value : Bool)
  | number (numeral : Numeral)
  | string (pieces : List Piece)
  | emptyArray (gap : Gap)
  | array (gap : Gap) (items : Items)
  | emptyObject (gap : Gap)
  | object (gap : Gap) (entries : Entries)

/-- The items of an array, each with the gap after it.  After the last one there may be a comma with
a gap of its own. -/
inductive Items where
  | last (item : Written) (gap : Gap) (comma : Option Gap)
  | more (item : Written) (gap after : Gap) (rest : Items)

/-- The entries of an object, each with the gap after it.  After the last one there may be a comma
with a gap of its own. -/
inductive Entries where
  | last (label : Label) (item : Written) (gap : Gap) (comma : Option Gap)
  | more (label : Label) (item : Written) (gap after : Gap) (rest : Entries)

end

/-- How gaps are shown, and a comma after the last element together with its gap. -/
structure Showing where
  gap : Gap → List Char
  comma : Gap → List Char

/-- Gaps as they are written. -/
def Showing.full : Showing := ⟨Gap.text, fun gap => ',' :: gap.text⟩

/-- Gaps without comments.  A comma after the last element is dropped if nothing but white space
parts it from the bracket. -/
def Showing.bare : Showing :=
  ⟨Gap.bare, fun gap => if gap.isBlank then gap.bare else ',' :: gap.bare⟩

/-- The text of a key with its colon. -/
def Label.shown (showing : Showing) (label : Label) : List Char :=
  Piece.quoted label.key ++ showing.gap label.before ++ ':' :: showing.gap label.after

/-- The comma after the last element, if there is one. -/
def Showing.ending (showing : Showing) : Option Gap → List Char
  | none => []
  | some gap => showing.comma gap

/-- Whether nothing but white space parts a comma after the last element from the bracket. -/
def isClear : Option Gap → Bool
  | none => true
  | some gap => gap.isBlank

mutual

/-- The text of a value. -/
def Written.shown (showing : Showing) : Written → List Char
  | .null => ['n', 'u', 'l', 'l']
  | .truth true => ['t', 'r', 'u', 'e']
  | .truth false => ['f', 'a', 'l', 's', 'e']
  | .number numeral => numeral.text
  | .string pieces => Piece.quoted pieces
  | .emptyArray gap => '[' :: showing.gap gap ++ [']']
  | .array gap items => '[' :: showing.gap gap ++ items.shown showing ++ [']']
  | .emptyObject gap => '\x7b' :: showing.gap gap ++ ['\x7d']
  | .object gap entries => '\x7b' :: showing.gap gap ++ entries.shown showing ++ ['\x7d']

/-- The text of the items of an array up to its closing bracket. -/
def Items.shown (showing : Showing) : Items → List Char
  | .last item gap comma => item.shown showing ++ showing.gap gap ++ showing.ending comma
  | .more item gap after rest =>
    item.shown showing ++ showing.gap gap ++ ',' :: showing.gap after ++ rest.shown showing

/-- The text of the entries of an object up to its closing brace. -/
def Entries.shown (showing : Showing) : Entries → List Char
  | .last label item gap comma =>
    label.shown showing ++ item.shown showing ++ showing.gap gap ++ showing.ending comma
  | .more label item gap after rest =>
    label.shown showing ++ item.shown showing ++ showing.gap gap
      ++ ',' :: showing.gap after ++ rest.shown showing

end

mutual

/-- The value that is written. -/
def Written.value : Written → Json
  | .null => .null
  | .truth value => .bool value
  | .number numeral => numeral.value
  | .string pieces => .string (String.ofList (Piece.meaning pieces))
  | .emptyArray _ => .array []
  | .array _ items => .array items.values
  | .emptyObject _ => .object []
  | .object _ entries => .object (Keyed.ofPairs entries.pairs)

/-- The values of the items of an array. -/
def Items.values : Items → List Json
  | .last item _ _ => [item.value]
  | .more item _ _ rest => item.value :: rest.values

/-- The keys and values of the entries of an object. -/
def Entries.pairs : Entries → List (String × Json)
  | .last label item _ _ => [(String.ofList (Piece.meaning label.key), item.value)]
  | .more label item _ _ rest =>
    (String.ofList (Piece.meaning label.key), item.value) :: rest.pairs

end

mutual

/-- Whether no comment stands between a last comma and the bracket that it comes before. -/
def Written.commasClear : Written → Bool
  | .array _ items => items.commasClear
  | .object _ entries => entries.commasClear
  | _ => true

@[inherit_doc Written.commasClear]
def Items.commasClear : Items → Bool
  | .last item _ comma => item.commasClear && isClear comma
  | .more item _ _ rest => item.commasClear && rest.commasClear

@[inherit_doc Written.commasClear]
def Entries.commasClear : Entries → Bool
  | .last _ item _ comma => item.commasClear && isClear comma
  | .more _ item _ _ rest => item.commasClear && rest.commasClear

end

mutual

/-- The greatest number of arrays and objects inside each other in a value. -/
def Written.depth : Written → Nat
  | .emptyArray _ | .emptyObject _ => 1
  | .array _ items => items.depth + 1
  | .object _ entries => entries.depth + 1
  | _ => 0

@[inherit_doc Written.depth]
def Items.depth : Items → Nat
  | .last item _ _ => item.depth
  | .more item _ _ rest => max item.depth rest.depth

@[inherit_doc Written.depth]
def Entries.depth : Entries → Nat
  | .last _ item _ _ => item.depth
  | .more _ item _ _ rest => max item.depth rest.depth

end

/-- A document: a value with gaps around it, with no more arrays and objects inside each other than
there may be.  The line of a comment at the very end needs no end. -/
structure Document where
  before : Gap
  body : Written
  after : Gap
  remark : Option { text : List Char // '\n' ∉ text }
  shallow : body.depth ≤ nestingLimit := by decide

namespace Document

/-- The text of a comment at the very end. -/
def remarkText : Option { text : List Char // '\n' ∉ text } → List Char
  | none => []
  | some text => '/' :: '/' :: text.val

/-- The text of a document. -/
def text (document : Document) : List Char :=
  document.before.text ++ document.body.shown .full ++ document.after.text
    ++ remarkText document.remark

/-- What is left of a document without comments, and without the last commas that can be seen to be
last. -/
def bare (document : Document) : List Char :=
  document.before.bare ++ document.body.shown .bare ++ document.after.bare

end Document

end Json
end ModuleAtlas
