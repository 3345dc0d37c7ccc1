/-!
# Text

Operations on texts and on lists of characters.
-/

namespace ModuleAtlas.Text

/-!
## Text

Splitting, trimming and replacing on character lists, with the same operations on strings.
Splitting at a character loses nothing: joining the pieces gives the text back.
-/

/-- Pieces of a text between the occurrences of one character; an empty text has one empty piece. -/
def splitChars (separator : Char) : List Char → List (List Char)
  | [] => [[]]
  | c :: rest =>
    if c = separator then [] :: splitChars separator rest
    else
      match splitChars separator rest with
      | [] => [[c]]
      | piece :: pieces => (c :: piece) :: pieces

theorem splitChars_ne_nil (separator : Char) (text : List Char) :
    splitChars separator text ≠ [] := by
  cases text with
  | nil => simp [splitChars]
  | cons c rest =>
    simp only [splitChars]
    split
    · simp
    · split <;> simp

/-- Pieces of a string between the occurrences of one character. -/
def split (separator : Char) (text : String) : List String :=
  (splitChars separator text.toList).map String.ofList

/-- The text before the first occurrence of a character and the text after it. -/
def cutFirst? (separator : Char) : List Char → Option (List Char × List Char)
  | [] => none
  | c :: rest =>
    if c = separator then some ([], rest)
    else (cutFirst? separator rest).map fun (before, after) => (c :: before, after)

/-- The text before the last occurrence of a character and the text after it. -/
def cutLast? (separator : Char) (text : List Char) : Option (List Char × List Char) :=
  (cutFirst? separator text.reverse).map fun (after, before) => (before.reverse, after.reverse)

/-- The rest of a text that starts with the given characters. -/
def dropStart? : List Char → List Char → Option (List Char)
  | [], text => some text
  | _ :: _, [] => none
  | p :: start, c :: text => if p = c then dropStart? start text else none

/-- Whether a string starts with the given one. -/
def startsWith (start text : String) : Bool := start.toList.isPrefixOf text.toList

/-- Whether a string ends with the given one. -/
def endsWith (ending text : String) : Bool := ending.toList.isSuffixOf text.toList

/-- The string without its first characters. -/
def dropChars (count : Nat) (text : String) : String := String.ofList (text.toList.drop count)

/-- The string without its first and last character. -/
def inner (text : String) : String := String.ofList (text.toList.tail.dropLast)

/-- Whether the characters occur somewhere in the text, one after the other. -/
def containsChars (part : List Char) : List Char → Bool
  | [] => part.isEmpty
  | c :: text => part.isPrefixOf (c :: text) || containsChars part text

/-- Whether a string occurs in another. -/
def contains (part text : String) : Bool := containsChars part.toList text.toList

/-- The text without the characters at both ends that satisfy a test. -/
def trimChars (drop : Char → Bool) (text : List Char) : List Char :=
  ((text.dropWhile drop).reverse.dropWhile drop).reverse

/-- The text without the characters at its end that satisfy a test. -/
def trimEnd (drop : Char → Bool) (text : List Char) : List Char :=
  (text.reverse.dropWhile drop).reverse

/-- Replaces the leftmost occurrences of a non-empty text that do not overlap; at most `limit` of
them when a limit is given. -/
def replaceChars (part replacement : List Char) : Option Nat → Nat → List Char → List Char
  | _, 0, text => text
  | some 0, _ + 1, text => text
  | _, _ + 1, [] => []
  | limit, fuel + 1, c :: text =>
    match dropStart? part (c :: text) with
    | some rest => replacement ++ replaceChars part replacement (limit.map (· - 1)) fuel rest
    | none => c :: replaceChars part replacement limit fuel text

/-- Replaces every occurrence of a non-empty string. -/
def replaceAll (part replacement text : String) : String :=
  String.ofList <|
    replaceChars part.toList replacement.toList none (text.toList.length + 1) text.toList

/-- Replaces the first occurrence of a non-empty string. -/
def replaceFirst (part replacement text : String) : String :=
  String.ofList <|
    replaceChars part.toList replacement.toList (some 1) (text.toList.length + 1) text.toList

/-- The strings one after the other with a separator between each two. -/
def join (separator : String) (pieces : List String) : String := String.intercalate separator pieces

/-- The string with the Latin capital letters made small. -/
def lower (text : String) : String := String.ofList (text.toList.map Char.toLower)

/-- A string repeated a number of times. -/
def repeated (count : Nat) (c : Char) : String := String.ofList (List.replicate count c)

/-- Equal neighbours of a list merged into one. -/
def dedupNeighbours [DecidableEq α] : List α → List α
  | [] => []
  | [x] => [x]
  | x :: y :: rest =>
    if x = y then dedupNeighbours (y :: rest) else x :: dedupNeighbours (y :: rest)

/-- Strings in increasing order of their characters. -/
def sortStrings (texts : List String) : List String := texts.mergeSort fun a b => decide (a ≤ b)

/-- Strings in increasing order, each once. -/
def sortedSet (texts : List String) : List String := dedupNeighbours (sortStrings texts)

/-!
## Pieces

Splitting a text at the occurrences of another text, with or without a limit on their number.
Joining the pieces gives the text back.
-/

/-- Pieces of a text between the leftmost occurrences of a separator that do not overlap, given the
characters of the current piece in reverse; at most `limit` occurrences count. -/
def piecesFrom (separator : List Char) :
    Nat → Option Nat → List Char → List Char → List (List Char)
  | 0, _, current, text => [current.reverse ++ text]
  | _ + 1, some 0, current, text => [current.reverse ++ text]
  | _ + 1, _, current, [] => [current.reverse]
  | fuel + 1, limit, current, c :: text =>
    match dropStart? separator (c :: text) with
    | some rest => current.reverse :: piecesFrom separator fuel (limit.map (· - 1)) [] rest
    | none => piecesFrom separator fuel limit (c :: current) text

/-- Pieces of a text between all occurrences of a separator that is not empty. -/
def pieces (separator text : List Char) : List (List Char) :=
  piecesFrom separator (text.length + 1) none [] text

/-- Pieces of a text between the first occurrences of a separator that is not empty. -/
def piecesUpTo (limit : Nat) (separator text : List Char) : List (List Char) :=
  piecesFrom separator (text.length + 1) (some limit) [] text

/-- The number of occurrences of a text in another that do not overlap. -/
def countOf (part text : List Char) : Nat := (pieces part text).length - 1

/-- The pieces one after the other with a separator between each two. -/
def joinChars (separator : List Char) (parts : List (List Char)) : List Char :=
  List.intercalate separator parts

/-- The text without some characters at its start and at its end. -/
def cut (start stop : Nat) (text : List Char) : List Char :=
  (text.drop start).take (text.length - start - stop)

/-!
## Blanks and lines

The characters that count as white space in source text, text with its runs of blanks collapsed,
and the ends of lines.
-/

/-- White space: the Unicode white space characters together with the four information separators
U+001C to U+001F. -/
def isBlank (c : Char) : Bool :=
  let n := c.toNat
  (9 ≤ n && n ≤ 13) || (28 ≤ n && n ≤ 32) || n == 0x85 || n == 0xA0 || n == 0x1680
    || (0x2000 ≤ n && n ≤ 0x200A) || n == 0x2028 || n == 0x2029 || n == 0x202F || n == 0x205F
    || n == 0x3000

/-- White space that may stand around a number. The information separators may not. -/
def isMargin (c : Char) : Bool := isBlank c && !(28 ≤ c.toNat && c.toNat ≤ 31)

/-- Each run of blanks as one space, with no blank at either end. -/
def collapseChars : List Char → List Char
  | [] => []
  | c :: rest =>
    if isBlank c then collapseChars rest
    else
      match rest with
      | [] => [c]
      | d :: _ =>
        if isBlank d then
          match collapseChars rest with
          | [] => [c]
          | more => c :: ' ' :: more
        else c :: collapseChars rest

/-- The string with each run of blanks as one space and no blank at either end. -/
def collapse (text : String) : String := String.ofList (collapseChars text.toList)

/-- The string without the blanks at both ends. -/
def strip (text : String) : String := String.ofList (trimChars isBlank text.toList)

/-!
### Lines

Line ends: the universal ones of a text file, and the larger set that ends a line of a listing.
-/

/-- A text as a reader of text files sees it: a carriage return, alone or before a line feed,
reads as one line feed. -/
def unifyNewlines : List Char → List Char
  | [] => []
  | '\r' :: '\n' :: rest => '\n' :: unifyNewlines rest
  | c :: rest => (if c = '\r' then '\n' else c) :: unifyNewlines rest

/-- A character that ends a line: line feed, carriage return, vertical tab, form feed, the
separators U+001C to U+001E, next line, line separator and paragraph separator. -/
def isLineEnd (c : Char) : Bool :=
  let n := c.toNat
  (10 ≤ n && n ≤ 13) || (0x1C ≤ n && n ≤ 0x1E) || n == 0x85 || n == 0x2028 || n == 0x2029

/-- The lines of a text without their ends; a carriage return followed by a line feed is one end,
and the last line needs none. -/
def linesFrom (current : List Char) : List Char → List (List Char)
  | [] => if current.isEmpty then [] else [current.reverse]
  | '\r' :: '\n' :: rest => current.reverse :: linesFrom [] rest
  | c :: rest =>
    if isLineEnd c then current.reverse :: linesFrom [] rest else linesFrom (c :: current) rest

/-- The lines of a string without their ends. -/
def lines (text : String) : List String := (linesFrom [] text.toList).map String.ofList

end ModuleAtlas.Text
