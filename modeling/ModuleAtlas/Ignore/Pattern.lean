import ModuleAtlas.Regex.Parser

/-!
# Ignore patterns

The pattern lines of ignore files. A pattern is cut at its slashes and becomes a regular expression
over the path; its first group, the directory mark, takes part in a match when the path was matched
through a directory that the pattern names.
-/

namespace ModuleAtlas.Ignore

open Regex (Pattern CharSet)

/-- Why a line is no pattern. -/
inductive PatternFault where
  /-- Nothing is left of the line, or a backslash has nothing to escape. -/
  | malformed
  /-- A set has a range that runs backwards. -/
  | badSet (fault : Regex.Fault)
deriving Repr, DecidableEq

/-- A compiled line: whether it ignores what it matches or takes it back, and what it matches. -/
structure Matcher where
  ignores : Bool
  expression : Pattern
deriving Repr, DecidableEq

namespace Matcher

/-- One character that is not a slash. -/
def notSlash : Pattern := .one ⟨true, [.range '/' '/']⟩

/-- A slash. -/
def slash : Pattern := .one (.single '/')

/-- A slash that marks the match as one through a directory. -/
def directoryMark : Pattern := .group 1 slash

/-- Any characters of one line, at least one. -/
def someText : Pattern := .loop (.one .anyButLineFeed) 1 none .greedy

/-- A part of a name between slashes: a character, any text, any character, or one in a set or not
in it. -/
inductive Part where
  | character (c : Char)
  | anyText
  | anyCharacter
  | set (negated : Bool) (members : List Char)
deriving Repr, DecidableEq

/-- The parts of a name; `none` when a set is never closed. -/
def parts : Nat → List Char → Except PatternFault (Option (List Part))
  | 0, _ => .ok (some [])
  | _ + 1, [] => .ok (some [])
  | fuel + 1, c :: rest =>
    let andThen := fun (part : Part) (rest : List Char) =>
      (parts fuel rest).map (·.map (part :: ·))
    match c with
    | '\\' =>
      match rest with
      | [] => .error .malformed
      | e :: rest => andThen (.character e) rest
    | '*' => andThen .anyText rest
    | '?' => andThen .anyCharacter rest
    | '[' =>
      let (negated, content) :=
        match rest with
        | '!' :: content => (true, content)
        | '^' :: content => (true, content)
        | content => (false, content)
      let (first, more) :=
        match content with
        | ']' :: more => ([']'], more)
        | more => ([], more)
      match Text.cutFirst? ']' more with
      | none => .ok none
      | some (members, after) => andThen (.set negated (first ++ members)) after
    | c => andThen (.character c) rest

/-- What a part matches. A backslash in a set is one of its members. -/
def Part.pattern : Part → Except PatternFault Pattern
  | .character c => .ok (.one (.single c))
  | .anyText => .ok (.loop notSlash 0 none .greedy)
  | .anyCharacter => .ok notSlash
  | .set negated members =>
    let written := members.flatMap fun c => if c = '\\' then ['\\', '\\'] else [c]
    match Regex.Parser.setMembers (written.length + 2) true [] (written ++ [']']) with
    | .ok (atoms, _) => .ok (.one ⟨negated, atoms⟩)
    | .error fault => .error (.badSet fault)

/-- Two stars between slashes: any number of directories. -/
def stars : String := "**"

/-- Neighbouring double stars merged into one. -/
def mergeStars : List String → List String
  | [] => []
  | [segment] => [segment]
  | a :: b :: rest =>
    if a = stars ∧ b = stars then mergeStars (b :: rest) else a :: mergeStars (b :: rest)

/-- The segments of a pattern in their normal form. A pattern of one name may match at any depth,
and a slash at the end stands for everything below. -/
def segments (written : List String) : List String :=
  let anchored :=
    match written with
    | "" :: rest => rest
    | [single] => if single = stars then [single] else [stars, single]
    | [single, ""] => if single = stars then [single, ""] else [stars, single, ""]
    | many => many
  let closed :=
    if anchored.getLast? = some "" then anchored.dropLast ++ [stars] else anchored
  mergeStars closed

/-- What stands between two slashes: any number of directories, any name, or a name. -/
inductive Segment where
  | directories
  | anyName
  | name (parts : List Part)
deriving Repr, DecidableEq

/-- The segments that texts between slashes stand for; `none` when a set is never closed. The first
fault counts. -/
def readSegments : List String → Except PatternFault (Option (List Segment))
  | [] => .ok (some [])
  | text :: rest => do
    let segment ←
      if text = stars then Except.ok (some .directories)
      else if text = "*" then .ok (some .anyName)
      else (parts (text.toList.length + 1) text.toList).map (·.map .name)
    match segment with
    | none => return none
    | some segment => return (← readSegments rest).map (segment :: ·)

/-- What a name matches. -/
def Segment.body : Segment → Except PatternFault (List Pattern)
  | .directories => .ok []
  | .anyName => .ok [.loop notSlash 1 none .greedy]
  | .name parts => parts.mapM Part.pattern

/-- The expression of segments, given whether the first of them starts the pattern and whether a
slash stands before it. -/
def translate (directoryPattern : Bool) :
    Bool → Bool → List Segment → Except PatternFault (List Pattern)
  | _, _, [] => .ok []
  | isFirst, needsSlash, segment :: rest => do
    let last := rest.isEmpty
    if segment = .directories then
      if isFirst then
        return .anchor .textStart :: .loop (.append someText slash) 0 (some 1) .greedy
          :: (← translate directoryPattern false false rest)
      else if last then return [if directoryPattern then directoryMark else slash]
      else
        return .loop (.append slash someText) 0 (some 1) .greedy
          :: (← translate directoryPattern false true rest)
    else
      let start :=
        (if isFirst then [.anchor .textStart] else []) ++ (if needsSlash then [slash] else [])
      let finish := if last then [.either directoryMark (.anchor .lastLineEnd)] else []
      return start ++ (← segment.body) ++ finish ++ (← translate directoryPattern false true rest)

/-- The expression of segments in normal form. Patterns that match everything, or everything that
is not at the top, have short expressions of their own. -/
def ofSegments (directoryPattern : Bool) : List Segment → Except PatternFault Pattern
  | [.directories] => .ok (if directoryPattern then directoryMark else .one .anyButLineFeed)
  | [.directories, .anyName] => .ok (.one .anyButLineFeed)
  | [.directories, .anyName, .directories] =>
    .ok (if directoryPattern then directoryMark else slash)
  | segments => (translate directoryPattern true false segments).map Pattern.sequence

/-- The line without the blanks at its end; a line that ends in an escaped blank keeps them. -/
def trimmed (line : List Char) : List Char :=
  if [' ', '\\'].isPrefixOf line.reverse then line else Text.trimEnd Text.isBlank line

/-- Compiles a line; `none` when it is blank, a comment or without effect. -/
def compile (line : String) : Except PatternFault (Option Matcher) :=
  let text := trimmed line.toList
  if text.isEmpty || text.head? == some '#' || text == ['/'] then .ok none
  else
    let (ignores, body) :=
      match text with
      | '!' :: body => (false, body)
      | body => (true, body)
    let written := (Text.splitChars '/' body).map String.ofList
    let normal := segments written
    if normal.isEmpty then .error .malformed
    else do
      match ← readSegments normal with
      | none => return none
      | some found =>
        return some ⟨ignores, ← ofSegments (written.getLast? == some "") found⟩

/-- How a path is matched: not at all, through a directory, or itself. -/
inductive Strength where
  | throughDirectory
  | itself
deriving Repr, DecidableEq

/-- How a compiled line matches a path. -/
def strength? (matcher : Matcher) (path : String) : Option Strength :=
  let subject := path.toList.toArray
  (matcher.expression.searchFrom? subject (subject.size + 1) 0 false).map fun found =>
    if (found.cursor.span? 1).isSome then .throughDirectory else .itself

/-- A rule by which matches are weighed. It is given the matches of a path in the order of their
lines, for each whether the line ignores what it matches and how it matches, and says whether the
path is ignored, if there is a decision. -/
abbrev Weighing := List (Bool × Strength) → Option Bool

/-- The last match of the path itself decides, and where there is none, the last match through a
directory. -/
def itselfFirst : Weighing := fun found =>
  match (found.filter fun entry => entry.2 == .itself).getLast? with
  | some entry => some entry.1
  | none => found.getLast?.map (·.1)

/-- The decision of lines on a path by a rule for their matches. -/
def verdictBy? (weigh : Weighing) (matchers : List Matcher) (path : String) : Option Bool :=
  weigh (matchers.filterMap fun matcher =>
    (matcher.strength? path).map fun strength => (matcher.ignores, strength))

/-- The decision of lines on a path, if any of them matches it: a match of the path itself goes
before every match through a directory. -/
def verdict? (matchers : List Matcher) (path : String) : Option Bool :=
  verdictBy? itselfFirst matchers path

end Matcher

end ModuleAtlas.Ignore
