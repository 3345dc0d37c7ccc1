/-!
# Bytes and text

Bytes read as text, and bytes written in text.
-/

namespace ModuleAtlas

namespace Text.Utf8

/-!
## UTF-8 and halves of pairs

Decoding of bytes to characters, either strictly or with U+FFFD for each maximal part that is not
a character; and code units that are half of a pair.
-/

/-- The bytes that may follow a leading byte as the second byte of a character. -/
def secondRange (lead : Nat) : Nat × Nat :=
  if lead = 0xE0 then (0xA0, 0xBF)
  else if lead = 0xED then (0x80, 0x9F)
  else if lead = 0xF0 then (0x90, 0xBF)
  else if lead = 0xF4 then (0x80, 0x8F)
  else (0x80, 0xBF)

/-- The number of bytes that follow a leading byte. -/
def tailLength? (lead : Nat) : Option Nat :=
  if lead < 0x80 then some 0
  else if 0xC2 ≤ lead ∧ lead ≤ 0xDF then some 1
  else if 0xE0 ≤ lead ∧ lead ≤ 0xEF then some 2
  else if 0xF0 ≤ lead ∧ lead ≤ 0xF4 then some 3
  else none

/-- The payload bits of a leading byte with the given number of following bytes. -/
def leadBits (lead count : Nat) : Nat :=
  match count with
  | 0 => lead
  | 1 => lead - 0xC0
  | 2 => lead - 0xE0
  | _ => lead - 0xF0

/-- The bytes decoded so far, as the state of a decoder: outside a character, or within one with
its bits, the number of bytes still to come and the range of the next byte. -/
inductive State where
  | outside
  | within (bits remaining low high : Nat)

/-- Decodes a byte that starts a character: the characters it completes, `none` standing for an
invalid part, and the next state. -/
def start (byte : Nat) : List (Option Char) × State :=
  match tailLength? byte with
  | none => ([none], .outside)
  | some 0 => ([some (Char.ofNat byte)], .outside)
  | some (count + 1) =>
    let range := secondRange byte
    ([], .within (leadBits byte (count + 1)) (count + 1) range.1 range.2)

/-- Decodes one byte. A byte that cannot continue the current character ends an invalid part and
starts anew. -/
def step (state : State) (byte : Nat) : List (Option Char) × State :=
  match state with
  | .outside => start byte
  | .within bits remaining low high =>
    if low ≤ byte ∧ byte ≤ high then
      let all := bits * 64 + (byte - 0x80)
      if remaining ≤ 1 then ([some (Char.ofNat all)], .outside)
      else ([], .within all (remaining - 1) 0x80 0xBF)
    else
      let next := start byte
      (none :: next.1, next.2)

/-- The characters of a byte sequence, `none` standing for each invalid part. -/
def pieces (state : State) : List UInt8 → List (Option Char)
  | [] =>
    match state with
    | .outside => []
    | .within _ _ _ _ => [none]
  | byte :: rest =>
    let next := step state byte.toNat
    next.1 ++ pieces next.2 rest

/-- The text of a byte sequence, or `none` when it is not UTF-8. -/
def decode? (bytes : List UInt8) : Option String :=
  ((pieces .outside bytes).mapM id).map String.ofList

/-- The text of a byte sequence with U+FFFD for each invalid part. -/
def decodeLossy (bytes : List UInt8) : String :=
  String.ofList ((pieces .outside bytes).map fun c => c.getD (Char.ofNat 0xFFFD))

end Text.Utf8

/-!
### Halves of pairs

A code unit that is half of a pair is no character when it stands alone, but escapes can write one.
A text keeps it as a character of the last private plane, at the same distance from the start of the
plane, and the code of that character is the code unit again.
-/

namespace Text

/-- Whether a code unit is the first half of a pair. -/
def isHighHalf (unit : Nat) : Bool := 0xD800 ≤ unit && unit ≤ 0xDBFF

/-- Whether a code unit is the second half of a pair. -/
def isLowHalf (unit : Nat) : Bool := 0xDC00 ≤ unit && unit ≤ 0xDFFF

/-- Whether a code unit is half of a pair. -/
def isHalf (unit : Nat) : Bool := isHighHalf unit || isLowHalf unit

/-- The start of the plane that keeps halves of pairs. -/
def halfPlane : Nat := 0x100000

/-- The character that stands for a code. -/
def ofCode (code : Nat) : Char :=
  if isHalf code then Char.ofNat (halfPlane + code) else Char.ofNat code

/-- The code that a character stands for. -/
def codeOf (c : Char) : Nat :=
  if halfPlane ≤ c.toNat && isHalf (c.toNat - halfPlane) then c.toNat - halfPlane else c.toNat

/-- Whether a character stands for half of a pair. -/
def isHalfChar (c : Char) : Bool := isHalf (codeOf c)

end Text

/-!
## Base64

Bytes written in groups of six bits, the highest bits first. Characters that stand for no bits are
skipped, and bits that fill no byte are dropped.
-/

namespace Text.Base64

/-- The six bits that a character stands for. -/
def sixBits? (c : Char) : Option Nat :=
  if c.isUpper then some (c.toNat - 'A'.toNat)
  else if c.isLower then some (c.toNat - 'a'.toNat + 26)
  else if c.isDigit then some (c.toNat - '0'.toNat + 52)
  else if c == '+' then some 62
  else if c == '/' then some 63
  else none

/-- The bytes of groups of six bits, given the bits left over and their number. -/
def bytesOf : Nat → Nat → List Nat → List UInt8
  | _, _, [] => []
  | bits, count, group :: rest =>
    let bits := bits * 64 + group
    let count := count + 6
    if 8 ≤ count then
      let unit := Nat.pow 2 (count - 8)
      UInt8.ofNat (bits / unit) :: bytesOf (bits % unit) (count - 8) rest
    else bytesOf bits count rest

/-- Whether the groups of a text can be cut into bytes, given the number of characters since the
last full four and the number of fillers after them: four of both end the text, and no four stay
open. -/
def fills : Nat → Nat → List Char → Bool
  | count, _, [] => count = 0
  | count, fillers, c :: rest =>
    if c == '=' then
      if 2 ≤ count && 4 ≤ count + fillers + 1 then true
      else fills count (if 2 ≤ count then fillers + 1 else fillers) rest
    else if (sixBits? c).isNone then fills count fillers rest
    else fills ((count + 1) % 4) 0 rest

/-- Whether a text is one of ASCII characters that stands for bytes. -/
def isWellFormed (text : String) : Bool :=
  text.toList.all (fun c => c.toNat < 0x80) && fills 0 0 text.toList

/-- The bytes that a text stands for. -/
def decode (text : String) : ByteArray :=
  ⟨(bytesOf 0 0 (text.toList.filterMap sixBits?)).toArray⟩

end Text.Base64

end ModuleAtlas
