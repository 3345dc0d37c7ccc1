import ModuleAtlas.Text.Integer

/-!
# Styles

A style is written as words: attributes, each of which can be denied, a colour, a colour of the
ground after `on`, and a link. One style can be written in many ways; its standard text is one of
them. A text that is no style stands for itself in small letters.
-/

namespace ModuleAtlas.Terminal

/-- A style: the attributes that it sets or denies, the colours and the link. -/
structure Style where
  attributes : List (String × Bool)
  colour : Option String
  ground : Option String
  link : Option String
deriving Repr, DecidableEq

namespace Style

/-- What is wrong with a text that is no style. -/
inductive Fault where
  /-- A word means nothing where it stands. -/
  | unknownWord
  /-- A part of a colour is no number. -/
  | noNumber
deriving Repr, DecidableEq

/-- The style that sets nothing. -/
def plain : Style := ⟨[], none, none, none⟩

/-! ## Colours -/

/-- Lines of names of colours. -/
def colourLines : List String := [
  "black red green yellow blue magenta cyan white bright_black bright_red bright_green",
  "bright_yellow bright_blue bright_magenta bright_cyan bright_white grey0 gray0 navy_blue",
  "dark_blue blue3 blue1 dark_green deep_sky_blue4 dodger_blue3 dodger_blue2 green4 spring_green4",
  "turquoise4 deep_sky_blue3 dodger_blue1 green3 spring_green3 dark_cyan light_sea_green",
  "deep_sky_blue2 deep_sky_blue1 spring_green2 cyan3 dark_turquoise turquoise2 green1",
  "spring_green1 medium_spring_green cyan2 cyan1 dark_red deep_pink4 purple4 purple3 blue_violet",
  "orange4 grey37 gray37 medium_purple4 slate_blue3 royal_blue1 chartreuse4 dark_sea_green4",
  "pale_turquoise4 steel_blue steel_blue3 cornflower_blue chartreuse3 cadet_blue sky_blue3",
  "steel_blue1 pale_green3 sea_green3 aquamarine3 medium_turquoise chartreuse2 sea_green2",
  "sea_green1 aquamarine1 dark_slate_gray2 dark_magenta dark_violet purple light_pink4 plum4",
  "medium_purple3 slate_blue1 yellow4 wheat4 grey53 gray53 light_slate_grey light_slate_gray",
  "medium_purple light_slate_blue dark_olive_green3 dark_sea_green light_sky_blue3 sky_blue2",
  "dark_sea_green3 dark_slate_gray3 sky_blue1 chartreuse1 light_green pale_green1",
  "dark_slate_gray1 red3 medium_violet_red magenta3 dark_orange3 indian_red hot_pink3",
  "medium_orchid3 medium_orchid medium_purple2 dark_goldenrod light_salmon3 rosy_brown grey63",
  "gray63 medium_purple1 gold3 dark_khaki navajo_white3 grey69 gray69 light_steel_blue3",
  "light_steel_blue yellow3 dark_sea_green2 light_cyan3 light_sky_blue1 green_yellow",
  "dark_olive_green2 dark_sea_green1 pale_turquoise1 deep_pink3 magenta2 hot_pink2 orchid",
  "medium_orchid1 orange3 light_pink3 pink3 plum3 violet light_goldenrod3 tan misty_rose3",
  "thistle3 plum2 khaki3 light_goldenrod2 light_yellow3 grey84 gray84 light_steel_blue1 yellow2",
  "dark_olive_green1 honeydew2 light_cyan1 red1 deep_pink2 deep_pink1 magenta1 orange_red1",
  "indian_red1 hot_pink dark_orange salmon1 light_coral pale_violet_red1 orchid2 orchid1 orange1",
  "sandy_brown light_salmon1 light_pink1 pink1 plum1 gold1 navajo_white1 misty_rose1 thistle1",
  "yellow1 light_goldenrod1 khaki1 wheat1 cornsilk1 grey100 gray100 grey3 gray3 grey7 gray7",
  "grey11 gray11 grey15 gray15 grey19 gray19 grey23 gray23 grey27 gray27 grey30 gray30 grey35",
  "gray35 grey39 gray39 grey42 gray42 grey46 gray46 grey50 gray50 grey54 gray54 grey58 gray58",
  "grey62 gray62 grey66 gray66 grey70 gray70 grey74 gray74 grey78 gray78 grey82 gray82 grey85",
  "gray85 grey89 gray89 grey93 gray93"]

/-- Whether a word in small letters is the name of a colour. -/
def isColourName (word : String) : Bool :=
  word == "default" || colourLines.any fun line => (Text.split ' ' line).contains word

/-- The text between a start and a closing bracket. -/
def between? (start : String) (word : List Char) : Option (List Char) := do
  let inside ← Text.dropStart? start.toList word
  if inside.getLast? == some ')' then some inside.dropLast else none

/-- The most digits that a number may have. -/
def digitLimit : Nat := 4300

/-- The number that digits of any script stand for. -/
def number? (digits : List Char) : Option Nat :=
  if digits.isEmpty || digitLimit < digits.length then none
  else digits.foldlM (fun value c => (Text.digitValue? c).map (value * 10 + ·)) 0

/-- The greatest part of a colour. -/
def greatestPart : Nat := 255

/-- Checks the parts of a colour between commas. -/
def checkParts (inside : List Char) : Except Fault Unit :=
  if inside.isEmpty || !inside.all fun c => c == ',' || Text.isDigit c then .error .unknownWord
  else
    let parts := Text.splitChars ',' inside
    if parts.length ≠ 3 then .error .unknownWord
    else
      match parts.mapM number? with
      | none => .error .noNumber
      | some parts => if parts.all (· ≤ greatestPart) then .ok () else .error .unknownWord

/-- Whether a text is the number of a colour. -/
def isColourNumber (inside : List Char) : Bool :=
  !inside.isEmpty && inside.length ≤ 3 && inside.all Char.isDigit
    && Text.natOf inside ≤ greatestPart

/-- Whether a word is a colour in hexadecimal digits. -/
def isHexColour : List Char → Bool
  | '#' :: digits => digits.length = 6 && (Text.hexValue? digits).isSome
  | _ => false

/-- The colour that a word stands for, in small letters. -/
def colourOf (word : List Char) : Except Fault String := do
  let small := Text.toSmall word
  let name := String.ofList small
  if isColourName name || isHexColour small || (between? "color(" small).any isColourNumber then
    return name
  else
    match between? "rgb(" small with
    | none => throw .unknownWord
    | some inside =>
      checkParts inside
      return name

/-! ## Words -/

/-- The attributes in their standard order. -/
def attributeNames : List String := [
  "bold", "dim", "italic", "underline", "blink", "blink2", "reverse", "conceal", "strike",
  "underline2", "frame", "encircle", "overline"]

/-- The short names of attributes. -/
def shortNames : List (String × String) := [
  ("b", "bold"), ("d", "dim"), ("i", "italic"), ("u", "underline"), ("r", "reverse"),
  ("c", "conceal"), ("s", "strike"), ("uu", "underline2"), ("o", "overline")]

/-- The attribute that a word names. -/
def attribute? (word : String) : Option String :=
  if attributeNames.contains word then some word else shortNames.lookup word

/-- The style with an attribute set or denied. -/
def setAttribute (style : Style) (name : String) (value : Bool) : Style :=
  { style with attributes := (name, value) :: style.attributes.filter (·.1 != name) }

/-- The words of a text. -/
def wordsOf (text : List Char) : List (List Char) :=
  (text.splitBy fun a b => Text.isBlank a == Text.isBlank b).filter fun word =>
    !word.all Text.isBlank

/-- The style that words add to one. -/
def ofWords : Style → List (List Char) → Except Fault Style
  | style, [] => .ok style
  | style, word :: rest =>
    let small := String.ofList (Text.toSmall word)
    match small, rest with
    | "on", [] | "not", [] | "link", [] => .error .unknownWord
    | "on", next :: rest => do ofWords { style with ground := some (← colourOf next) } rest
    | "not", next :: rest =>
      match attribute? (String.ofList next) with
      | some name => ofWords (style.setAttribute name false) rest
      | none => .error .unknownWord
    | "link", next :: rest => ofWords { style with link := some (String.ofList next) } rest
    | small, rest =>
      match attribute? small with
      | some name => ofWords (style.setAttribute name true) rest
      | none => do ofWords { style with colour := some (← colourOf word) } rest

/-- The style that a text stands for. -/
def ofText (text : List Char) : Except Fault Style :=
  if String.ofList (Text.trimChars Text.isBlank text) == "none" then .ok plain
  else ofWords plain (wordsOf text)

/-! ## Standard text -/

/-- The words for an attribute of a style. -/
def attributeWords (style : Style) (name : String) : List String :=
  match style.attributes.lookup name with
  | some true => [name]
  | some false => ["not", name]
  | none => []

/-- The standard text of a style. -/
def text (style : Style) : String :=
  let words := attributeNames.flatMap style.attributeWords
    ++ style.colour.toList ++ (style.ground.map fun name => ["on", name]).getD []
    ++ (style.link.map fun target => ["link", target]).getD []
  if words.isEmpty then "none" else Text.join " " words

/-- The standard text of what stands for a style. A text that is none stands for itself. -/
def standard (written : List Char) : Except Fault String :=
  match ofText written with
  | .ok style => .ok style.text
  | .error .unknownWord =>
    .ok (String.ofList (Text.toSmall (Text.trimChars Text.isBlank written)))
  | .error fault => .error fault

end Style

end ModuleAtlas.Terminal
