import ModuleAtlas.Terminal.EmojiNames
import ModuleAtlas.Terminal.Handler
import ModuleAtlas.Terminal.Style
import ModuleAtlas.Terminal.Width

/-!
# Marked up texts

Texts with styles and names of emoji in them, as a terminal shows them.
-/

namespace ModuleAtlas.Terminal

/-!
## Emoji by name

A name between colons stands for an emoji. The name may end with a skin tone, and after a hyphen
with the kind of showing that is asked for. Names that are not known stay as they are.
-/

/-- An emoji: its characters, and whether a skin tone may follow the first one. -/
structure Emoji where
  text : List Char
  hasTones : Bool
deriving Repr, DecidableEq

namespace Emoji

/-- The emoji that a table lists as code points between hyphens. -/
def ofCode? (code : String) : Option Emoji := do
  let pieces := Text.splitChars '-' code.toList
  let codes ← pieces.mapM fun piece =>
    let digits := piece.filter (· != '+')
    (Text.hexValue? digits).map fun code => if digits.length = 3 then 0x1F000 + code else code
  return ⟨codes.map Char.ofNat, code.toList.contains '+'⟩

/-- The word before the names among which a name is listed. -/
def codeIn? (name : String) (lines : List String) : Option String :=
  lines.findSome? fun line => (Text.split ';' line).findSome? fun entry =>
    match Text.split ' ' entry with
    | code :: names => if names.contains name then some code else none
    | [] => none

/-- The flag of a country, from its letters. -/
def flag (letters : String) : Emoji :=
  ⟨letters.toList.map fun c => Char.ofNat (0x1F1E6 + (c.toNat - 'a'.toNat)), false⟩

/-- The emoji that the tables list under a name. -/
def listed? (name : List Char) : Option Emoji :=
  match codeIn? (String.ofList name) emojiLines with
  | some code => ofCode? code
  | none =>
    let country := (Text.dropStart? "flag_for_".toList name).getD name
    (codeIn? (String.ofList country) countryLines).map flag

/-- The ends of names that ask for skin tones. -/
def tones : List (String × Nat) := [
  ("_light_skin_tone", 0x1F3FB), ("_medium-light_skin_tone", 0x1F3FC),
  ("_medium_skin_tone", 0x1F3FD), ("_medium-dark_skin_tone", 0x1F3FE),
  ("_dark_skin_tone", 0x1F3FF)]

/-- The character that asks for a letter and no picture. -/
def letterMark : Char := '\ufe0e'

/-- The characters of an emoji with a skin tone after the first one, in the place of a
selector. -/
def withTone (tone : Nat) : List Char → List Char
  | [] => []
  | first :: rest =>
    first :: Char.ofNat tone :: (if rest.head? == some selector then rest.tail else rest)

/-- The characters that a name with a skin tone at its end stands for. -/
def toned? (name : List Char) : Option (List Char) := do
  let (ending, tone) ← tones.find? fun (ending, _) => ending.toList.isSuffixOf name
  let emoji ← listed? (name.take (name.length - ending.length))
  if emoji.hasTones then some (withTone tone emoji.text) else none

/-- The characters that a name in small letters stands for. -/
def named? (name : List Char) : Option (List Char) :=
  match listed? name with
  | some emoji => some emoji.text
  | none => toned? name

/-- The ends of names that ask for a kind of showing, and the mark for it. -/
def marks : List (String × Char) := [("-emoji", selector), ("-text", letterMark)]

/-- The name between two colons without what is asked for at its end, and the mark for that. -/
def splitMark (written : List Char) : List Char × List Char :=
  match marks.find? fun (ending, _) => ending.toList.isSuffixOf written with
  | some (ending, mark) => (written.take (written.length - ending.length), [mark])
  | none => (written, [])

/-- What is shown of a text between two colons. -/
def shown (written : List Char) : List Char :=
  let (name, mark) := splitMark written
  match named? (Text.toSmall name) with
  | some emoji => emoji ++ mark
  | none => ':' :: written ++ [':']

/-- Shows names in a text, from the pieces of which each follows a colon. A name has no blanks. -/
def replaceAfter : List (List Char) → List Char
  | [] => []
  | [piece] => ':' :: piece
  | piece :: next :: rest =>
    if piece.any Text.isBlank then ':' :: piece ++ replaceAfter (next :: rest)
    else shown piece ++ next ++ replaceAfter rest

/-- The text with emoji in the place of their names. -/
def replaceNames (text : List Char) : List Char :=
  match Text.splitChars ':' text with
  | [] => []
  | first :: rest => first ++ replaceAfter rest

end Emoji

/-!
## Style tags

Text for a terminal may hold tags in brackets that give it a style. A tag starts with a small Latin
letter or one of the signs `#`, `/` and `@`; one with a slash closes the last tag of its name, or
the last tag at all. Backslashes before a tag stand for half their number, and an odd one makes the
tag plain text. Names of emoji in plain text are shown as emoji.
-/

/-- A part of a text with tags. -/
inductive MarkupPart where
  | plain (text : List Char)
  | tag (content : List Char)
deriving Repr, DecidableEq

namespace Markup

/-- A character that a tag may start with. -/
def startsTag (c : Char) : Bool := c.isLower || c == '#' || c == '/' || c == '@'

/-- The content of the tag whose opening bracket has just been read, and the text after it. -/
def tagAt? : List Char → Option (List Char × List Char)
  | [] => none
  | first :: rest =>
    if !startsTag first then none
    else
      let inside := rest.takeWhile fun c => c != '[' && c != ']'
      match rest.drop inside.length with
      | ']' :: after => some (first :: inside, after)
      | _ => none

/-- The parts that a tag after some backslashes stands for. -/
def escaped (slashes : Nat) (content : List Char) : List MarkupPart :=
  let kept := if slashes < 2 then [] else [MarkupPart.plain (List.replicate (slashes / 2) '\\')]
  kept ++ [if slashes % 2 = 1 then .plain ('[' :: content ++ [']']) else .tag content]

/-- Adds plain text, given in reverse, before other parts. -/
def flush (plain : List Char) (parts : List MarkupPart) : List MarkupPart :=
  if plain.isEmpty then parts else .plain plain.reverse :: parts

/-- The parts of a text, given the number of backslashes just read and the plain text before them in
reverse. -/
def partsFrom : Nat → Nat → List Char → List Char → List MarkupPart
  | 0, _, plain, text => flush plain [.plain text]
  | _ + 1, slashes, plain, [] => flush (List.replicate slashes '\\' ++ plain) []
  | fuel + 1, slashes, plain, c :: rest =>
    let all := List.replicate slashes '\\' ++ plain
    if c == '\\' then partsFrom fuel (slashes + 1) plain rest
    else if c == '[' then
      match tagAt? rest with
      | some (content, after) =>
        flush plain (escaped slashes content ++ partsFrom fuel 0 [] after)
      | none => partsFrom fuel 0 (c :: all) rest
    else partsFrom fuel 0 (c :: all) rest

/-- The parts of a text. -/
def parts (text : List Char) : List MarkupPart := partsFrom (text.length + 1) 0 [] text

/-- What is wrong with a text with tags. -/
inductive Fault where
  /-- A tag is closed that is not open. -/
  | unmatched
  /-- The arguments of a handler are not well-formed. -/
  | handler
  /-- A style is none. -/
  | style (fault : Style.Fault)
deriving Repr, DecidableEq

/-- An open tag: the standard text of its style, and what is given after an equals sign. -/
structure Tag where
  name : String
  given : Option (List Char)
deriving Repr, DecidableEq

/-- The style that a tag asks for. -/
def Tag.style (tag : Tag) : List Char :=
  match tag.given with
  | none => tag.name.toList
  | some given => tag.name.toList ++ ' ' :: given

/-- Whether a tag asks for a handler. -/
def Tag.isHandler (tag : Tag) : Bool := Text.startsWith "@" tag.name

/-- The standard text of a style. -/
def standard (written : List Char) : Except Fault String :=
  (Style.standard written).mapError .style

/-- The tag of a content. -/
def Tag.ofContent (content : List Char) : Except Fault Tag := do
  let name := content.takeWhile (· != '=')
  let rest := content.drop name.length
  return ⟨← standard name, if rest.isEmpty then none else some rest.tail⟩

/-- The latest open tag of a name, or of any name, and the others, latest first. -/
def close? (name : String) : List Tag → Option (Tag × List Tag)
  | [] => none
  | tag :: rest =>
    if name.isEmpty || tag.name == name then some (tag, rest)
    else (close? name rest).map fun (found, others) => (found, tag :: others)

/-- The name of the tag that a content after a slash closes; an empty one stands for the latest. -/
def closedName (content : List Char) : Except Fault String :=
  let name := Text.trimChars Text.isBlank (content.takeWhile (· != '='))
  if name.isEmpty then .ok "" else standard name

/-- A text without its tags, and the styles that its tags ask for. -/
structure Shown where
  text : List Char
  styles : List (List Char)
deriving Repr, DecidableEq

/-- A text after some others. -/
def Shown.after (text : List Char) (styles : List (List Char)) (shown : Shown) : Shown :=
  ⟨text ++ shown.text, styles ++ shown.styles⟩

/-- The styles that a tag asks for when it is closed. -/
def closedStyles (tag : Tag) : Except Fault (List (List Char)) :=
  if !tag.isHandler then .ok [tag.style]
  else if (tag.given.map Handler.isWellFormed).getD true then .ok []
  else .error .handler

/-- What parts show, given the open tags, latest first. -/
def shownFrom : List Tag → List MarkupPart → Except Fault Shown
  | opened, [] => .ok ⟨[], opened.map Tag.style⟩
  | opened, .plain text :: rest => do
    let text := Text.replaceChars ['\\', '['] ['['] none (text.length + 1) text
    return (← shownFrom opened rest).after (Emoji.replaceNames text) []
  | opened, .tag ('/' :: content) :: rest => do
    match close? (← closedName content) opened with
    | some (tag, opened) =>
      let styles ← closedStyles tag
      return (← shownFrom opened rest).after [] styles
    | none => throw .unmatched
  | opened, .tag content :: rest => do shownFrom ((← Tag.ofContent content) :: opened) rest

/-- The characters that a terminal does not get: bell, backspace, vertical tab, form feed and
carriage return. -/
def isDropped (c : Char) : Bool := [7, 8, 11, 12, 13].contains c.toNat

/-- What a text with tags shows. -/
def resolve (text : String) : Except Fault Shown := do
  let shown ← shownFrom [] (parts text.toList)
  return ⟨shown.text.filter fun c => !isDropped c, shown.styles⟩

/-- Checks the styles that a text asks for. A text that is no style is none, but its colours have to
be numbers. -/
def Shown.check (shown : Shown) : Except Fault Unit :=
  shown.styles.forM fun style =>
    match Style.ofText style with
    | .error .noNumber => .error (.style .noNumber)
    | _ => .ok ()

end Markup

end ModuleAtlas.Terminal
