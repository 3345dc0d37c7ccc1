import ModuleAtlas.Text.Basic
import ModuleAtlas.Text.Classes

/-!
# Regular expressions

The syntax of regular expressions and where they match.
-/

namespace ModuleAtlas.Regex

/-!
## Syntax

The abstract syntax of search patterns: character sets, anchors, groups, references to earlier
groups, choices by whether a group has matched, look-around and counted repetition in three modes.
-/

/-- A class of characters. -/
inductive CharKind where
  | digit
  | blank
  | word
deriving Repr, DecidableEq

/-- Whether a character is of a class. -/
def CharKind.holds (kind : CharKind) (c : Char) : Bool :=
  match kind with
  | .digit => Text.isDigit c
  | .blank => Text.isBlank c
  | .word => Text.isWord c

/-- Whether a character is one of the first 128 and of a class. The information separators are no
blanks here. -/
def CharKind.holdsNarrow (kind : CharKind) (c : Char) : Bool :=
  c.toNat < 128 &&
    match kind with
    | .blank => Text.isMargin c
    | kind => kind.holds c

/-- A member of a character set: the characters of a range, these in capital and in small letters,
or those of a class. -/
inductive Atom where
  | range (low high : Char)
  | anyCase (low high : Char)
  | ofKind (kind : CharKind) (negated : Bool)
  | narrow (kind : CharKind) (negated : Bool)
deriving Repr, DecidableEq

/-- Whether a character lies in a range. -/
def isBetween (low high c : Char) : Bool := low.toNat ≤ c.toNat && c.toNat ≤ high.toNat

/-- Whether a member of a set covers a character. -/
def Atom.covers (atom : Atom) (c : Char) : Bool :=
  match atom with
  | .range low high => isBetween low high c
  | .anyCase low high =>
    (low == high && Text.smallOf low == Text.smallOf c) || isBetween low high c
      || isBetween low high (Text.smallOf c) || isBetween low high (Text.capitalOf c)
  | .ofKind kind negated => kind.holds c != negated
  | .narrow kind negated => kind.holdsNarrow c != negated

/-- A set of characters, or the complement of one. -/
structure CharSet where
  negated : Bool
  atoms : List Atom
deriving Repr, DecidableEq

namespace CharSet

/-- Whether a character is in the set. -/
def contains (set : CharSet) (c : Char) : Bool :=
  (set.atoms.any fun atom => atom.covers c) != set.negated

/-- The set of one character. -/
def single (c : Char) : CharSet := ⟨false, [.range c c]⟩

/-- Every character. -/
def any : CharSet := ⟨true, []⟩

/-- Every character but the line feed. -/
def anyButLineFeed : CharSet := ⟨true, [.range '\n' '\n']⟩

end CharSet

/-- A condition on a position that reads no character. -/
inductive Anchor where
  /-- The start of the text. -/
  | textStart
  /-- The end of the text, or the position before a line feed that ends it. -/
  | lastLineEnd
  /-- The end of the text. -/
  | textEnd
  /-- The start of a line. -/
  | lineStart
  /-- The end of a line. -/
  | lineEnd
  /-- A position between a word character and something else. -/
  | wordBoundary
  /-- Any other position. -/
  | notWordBoundary
  /-- A position between a word character of the first 128 and something else. -/
  | narrowBoundary
  /-- Any other position. -/
  | notNarrowBoundary
deriving Repr, DecidableEq

/-- How a repetition chooses its count: as many as possible, as few as possible, or as many as
possible without ever giving one back. -/
inductive Mode where
  | greedy
  | lazy
  | possessive
deriving Repr, DecidableEq

/-- A search pattern. -/
inductive Pattern where
  | empty
  | one (set : CharSet)
  | anchor (condition : Anchor)
  | append (first second : Pattern)
  | either (first second : Pattern)
  | loop (body : Pattern) (least : Nat) (most : Option Nat) (mode : Mode)
  | group (index : Nat) (body : Pattern)
  | sameAs (index : Nat) (anyCase : Bool)
  | ifMatched (index : Nat) (yes no : Pattern)
  | ahead (positive : Bool) (body : Pattern)
  | behind (positive : Bool) (width : Nat) (body : Pattern)
deriving Repr, DecidableEq

namespace Pattern

/-- The patterns one after the other. -/
def sequence : List Pattern → Pattern
  | [] => .empty
  | [p] => p
  | p :: rest => .append p (sequence rest)

/-- The pattern that reads exactly the given characters. -/
def literal (text : List Char) : Pattern := sequence (text.map fun c => .one (.single c))

/-- The least and the greatest number of characters that matches of a pattern read, given these for
the groups. The greatest is missing when there is none. -/
def widths (groupWidths : Nat → Nat × Option Nat) : Pattern → Nat × Option Nat
  | .empty | .anchor _ | .ahead _ _ | .behind _ _ _ => (0, some 0)
  | .one _ => (1, some 1)
  | .append first second =>
    let (least, most) := widths groupWidths first
    let (nextLeast, nextMost) := widths groupWidths second
    (least + nextLeast, do return (← most) + (← nextMost))
  | .either first second | .ifMatched _ first second =>
    let (least, most) := widths groupWidths first
    let (nextLeast, nextMost) := widths groupWidths second
    (min least nextLeast, do return max (← most) (← nextMost))
  | .loop body least most _ =>
    let (narrow, wide) := widths groupWidths body
    let wide :=
      if wide = some 0 || most = some 0 then some 0 else do return (← wide) * (← most)
    (narrow * least, wide)
  | .group _ body => widths groupWidths body
  | .sameAs index _ => groupWidths index

end Pattern

/-- A compiled expression: its pattern, the number of its groups and the names of some of them. -/
structure Expression where
  pattern : Pattern
  groups : Nat
  names : List (String × Nat)
deriving Repr

/-- Why a text is not a regular expression. -/
inductive Fault where
  | nothingToRepeat
  | repeatedTwice
  | boundsReversed
  | unclosedSet
  | reversedRange
  | unknownEscape
  | unclosedGroup
  | unopenedGroup
  | unknownGroup
  | unknownName
  | unknownExtension
  | variableWidth
deriving Repr, DecidableEq

/-!
## Matching

Backtracking matching with an explicit continuation: a pattern tries its alternatives in order and
the first one from which the continuation succeeds is taken. The recursion is on the pattern;
a repetition runs at most once more than there are characters and required rounds.
-/

/-- A position in a text and the spans that the groups matched so far, latest first. -/
structure Cursor where
  position : Nat
  spans : List (Nat × Nat × Nat)
deriving Repr

namespace Cursor

/-- The span of a group, if it has matched. -/
def span? (cursor : Cursor) (index : Nat) : Option (Nat × Nat) :=
  (cursor.spans.find? fun entry => entry.1 == index).map (·.2)

end Cursor

/-- Whether there is a character at a position that satisfies a test. -/
def holdsAt (test : Char → Bool) (subject : Array Char) (position : Nat) : Bool :=
  match subject[position]? with
  | some c => test c
  | none => false

/-- Whether a condition holds at a position. An empty text has no place that is or is not the edge
of a word. -/
def Anchor.holds (anchor : Anchor) (subject : Array Char) (position : Nat) : Bool :=
  let isEdge := fun (isWord : Char → Bool) =>
    (position != 0 && holdsAt isWord subject (position - 1)) != holdsAt isWord subject position
  let boundary := isEdge Text.isWord
  let narrow := isEdge CharKind.word.holdsNarrow
  match anchor with
  | .textStart => position == 0
  | .textEnd => position == subject.size
  | .lastLineEnd =>
    position == subject.size || (position + 1 == subject.size && subject[position]? == some '\n')
  | .lineStart => position == 0 || subject[position - 1]? == some '\n'
  | .lineEnd => position == subject.size || subject[position]? == some '\n'
  | .wordBoundary => boundary
  | .notWordBoundary => !boundary && !subject.isEmpty
  | .narrowBoundary => narrow
  | .notNarrowBoundary => !narrow && !subject.isEmpty

/-- Whether characters that count as the given ones stand at a position. -/
def readsAt (same : Char → Char → Bool) (subject : Array Char) (position : Nat) :
    List Char → Bool
  | [] => true
  | c :: rest => holdsAt (same c) subject position && readsAt same subject (position + 1) rest

/-- Whether two characters are the same, or the same but for the case of a letter. -/
def isSame (anyCase : Bool) (a b : Char) : Bool :=
  a == b || (anyCase && Text.smallOf a == Text.smallOf b)

/-- The characters of a span. -/
def slice (subject : Array Char) (start finish : Nat) : List Char :=
  (subject.extract start finish).toList

/-- Repeats a step between two bounds. Beyond the required rounds a further round is tried only
where the last one has moved; `last` is the position at which the last optional round began. -/
def iterate (step : Cursor → (Cursor → Option Cursor) → Option Cursor) (lazy : Bool) :
    Nat → Nat → Option Nat → Option Nat → Cursor → (Cursor → Option Cursor) → Option Cursor
  | 0, _, _, _, _, _ => none
  | fuel + 1, least, most, last, cursor, resume =>
    match least with
    | required + 1 =>
      step cursor fun next =>
        iterate step lazy fuel required (most.map (· - 1)) none next resume
    | 0 =>
      let more := fun (_ : Unit) =>
        if most = some 0 ∨ last = some cursor.position then none
        else
          step cursor fun next =>
            iterate step lazy fuel 0 (most.map (· - 1)) (some cursor.position) next resume
      if lazy then
        match resume cursor with
        | some found => some found
        | none => more ()
      else
        match more () with
        | some found => some found
        | none => resume cursor

/-- Matches a pattern from a cursor and hands each way to do so, best first, to the continuation
until it succeeds. -/
def Pattern.match? (subject : Array Char) :
    Pattern → Cursor → (Cursor → Option Cursor) → Option Cursor
  | .empty, cursor, resume => resume cursor
  | .one set, cursor, resume =>
    match subject[cursor.position]? with
    | some c =>
      if set.contains c then resume { cursor with position := cursor.position + 1 } else none
    | none => none
  | .anchor condition, cursor, resume =>
    if condition.holds subject cursor.position then resume cursor else none
  | .append first second, cursor, resume =>
    match? subject first cursor fun next => match? subject second next resume
  | .either first second, cursor, resume =>
    match match? subject first cursor resume with
    | some found => some found
    | none => match? subject second cursor resume
  | .loop body least most mode, cursor, resume =>
    let fuel := least + (subject.size - cursor.position) + 2
    match mode with
    | .greedy => iterate (match? subject body) false fuel least most none cursor resume
    | .lazy => iterate (match? subject body) true fuel least most none cursor resume
    | .possessive =>
      match iterate (match? subject body) false fuel least most none cursor some with
      | some found => resume found
      | none => none
  | .group index body, cursor, resume =>
    match? subject body cursor fun next =>
      resume { next with spans := (index, cursor.position, next.position) :: next.spans }
  | .sameAs index anyCase, cursor, resume =>
    match cursor.span? index with
    | none => none
    | some (start, finish) =>
      if readsAt (isSame anyCase) subject cursor.position (slice subject start finish) then
        resume { cursor with position := cursor.position + (finish - start) }
      else none
  | .ifMatched index yes no, cursor, resume =>
    match cursor.span? index with
    | some _ => match? subject yes cursor resume
    | none => match? subject no cursor resume
  | .ahead positive body, cursor, resume =>
    match match? subject body cursor some with
    | some found =>
      if positive then resume { found with position := cursor.position } else none
    | none => if positive then none else resume cursor
  | .behind positive width body, cursor, resume =>
    let found :=
      if cursor.position < width then none
      else
        match? subject body { cursor with position := cursor.position - width } fun next =>
          if next.position = cursor.position then some next else none
    match found with
    | some found => if positive then resume found else none
    | none => if positive then none else resume cursor

/-- A match: its span and the spans of its groups. -/
structure Occurrence where
  start : Nat
  finish : Nat
  cursor : Cursor

/-- The match that starts at a position. With `moving`, a match without characters is passed over.
-/
def Pattern.matchAt? (pattern : Pattern) (subject : Array Char) (position : Nat) (moving : Bool) :
    Option Occurrence :=
  (pattern.match? subject ⟨position, []⟩ fun next =>
    if moving && next.position == position then none else some next).map fun found =>
      ⟨position, found.position, found⟩

/-- The first match at or after a position, among the next `count` positions. -/
def Pattern.searchFrom? (pattern : Pattern) (subject : Array Char) :
    Nat → Nat → Bool → Option Occurrence
  | 0, _, _ => none
  | count + 1, position, moving =>
    match pattern.matchAt? subject position moving with
    | some found => some found
    | none => searchFrom? pattern subject count (position + 1) false

/-- All matches from left to right that do not overlap; after a match the next one starts where it
ended, and is not empty there if the last one was. -/
def Pattern.occurrencesFrom (pattern : Pattern) (subject : Array Char) :
    Nat → Nat → Bool → List Occurrence
  | 0, _, _ => []
  | fuel + 1, position, moving =>
    match pattern.searchFrom? subject (subject.size + 1 - position) position moving with
    | none => []
    | some found =>
      found :: occurrencesFrom pattern subject fuel found.finish (found.finish == found.start)

/-- All matches in a text from left to right that do not overlap. -/
def Pattern.occurrences (pattern : Pattern) (subject : Array Char) : List Occurrence :=
  pattern.occurrencesFrom subject (2 * subject.size + 2) 0 false

/-- Whether the pattern matches at the start of a text. -/
def Pattern.startsText (pattern : Pattern) (text : String) : Bool :=
  (pattern.matchAt? text.toList.toArray 0 false).isSome

end ModuleAtlas.Regex
