import ModuleAtlas.Ignore.Pattern
import ModuleAtlas.Proofs.Listwise
import ModuleAtlas.Proofs.Regex.Reading
import ModuleAtlas.Proofs.Text.Pieces

/-!
# Lines that start with names

A line that starts with literal names and goes on behind a slash is compiled to an expression that
starts with these names: whatever it matches starts with them and a slash, from the first character
on.
-/

namespace ModuleAtlas
namespace Ignore
namespace Matcher

open Regex (Pattern Cursor)
open Regex.Pattern (Reads)

/-! ## Literal names -/

/-- A name that means nothing but itself between the slashes of a pattern. -/
structure IsLiteral (name : String) : Prop where
  nonempty : name ≠ ""
  free : Text.IsFreeOf '/' name
  usual : ∀ c ∈ name.toList, c ≠ '*' ∧ c ≠ '?' ∧ c ≠ '[' ∧ c ≠ '\\'

variable {name : String} {found : List Segment} {subject : Array Char} {tail text : List Char}
  {matcher : Matcher}

theorem IsLiteral.ne_stars (isLiteral : IsLiteral name) : name ≠ stars := by
  rintro rfl
  exact (isLiteral.usual '*' (by decide)).1 rfl

theorem IsLiteral.ne_star (isLiteral : IsLiteral name) : name ≠ "*" := by
  rintro rfl
  exact (isLiteral.usual '*' (by decide)).1 rfl

/-- A name without special characters is read as its characters. -/
theorem parts_of_usual
    {chars : List Char} (usual : ∀ c ∈ chars, c ≠ '*' ∧ c ≠ '?' ∧ c ≠ '[' ∧ c ≠ '\\')
    {fuel : Nat} (enough : chars.length ≤ fuel) :
    parts fuel chars = .ok (some (chars.map .character)) := by
  induction chars generalizing fuel with
  | nil => cases fuel <;> rfl
  | cons c chars ih =>
    rw [List.length_cons] at enough
    obtain ⟨fuel, rfl⟩ : ∃ less, fuel = less + 1 := ⟨fuel - 1, by omega⟩
    have rest := ih (fun other member => usual other (by simp [member]))
      (by omega : chars.length ≤ fuel)
    obtain ⟨star, mark, bracket, backslash⟩ := usual c List.mem_cons_self
    rw [parts]
    · simp only [rest]
      rfl
    · exact backslash
    · exact star
    · exact mark
    · exact bracket

/-- The segment of a literal name. -/
def literalSegment (name : String) : Segment := .name (name.toList.map .character)

variable {names : List String} {rest : List Segment} {patterns : List Pattern}
  {directoryPattern : Bool} {line : String}

theorem readSegments_append (literal : ∀ name ∈ names, IsLiteral name) (more : List String) :
    readSegments (names ++ more) =
      (readSegments more).map (·.map (names.map literalSegment ++ ·)) := by
  induction names with
  | nil =>
    rw [List.nil_append]
    cases readSegments more with
    | error fault => rfl
    | ok found => cases found <;> rfl
  | cons name names ih =>
    have isLiteral := literal name List.mem_cons_self
    have rest := ih fun other member => literal other (by simp [member])
    have read := parts_of_usual isLiteral.usual (Nat.le_succ name.toList.length)
    rw [List.cons_append, readSegments, if_neg isLiteral.ne_stars, if_neg isLiteral.ne_star, read,
      rest]
    cases readSegments more with
    | error fault => rfl
    | ok found => cases found <;> rfl

/-- What a text between slashes is read as. -/
inductive ReadAs : String → Segment → Prop where
  | stars : ReadAs stars .directories
  | star : ReadAs "*" .anyName
  | name {text : String} {found : List Part} (notStars : text ≠ Matcher.stars)
      (cut : parts (text.toList.length + 1) text.toList = .ok (some found)) :
      ReadAs text (.name found)

/-- Each segment is read from its own text. -/
theorem listwise_readSegments {texts : List String} (read : readSegments texts = .ok (some found)) :
    Listwise ReadAs texts found := by
  induction texts generalizing found with
  | nil =>
    cases read
    exact .nil
  | cons text texts ih =>
    have goesOn : ∀ segment, ReadAs text segment →
        (do return (← readSegments texts).map (segment :: ·)) = Except.ok (some found) →
        Listwise ReadAs (text :: texts) found := by
      intro segment readAs read
      cases rest : readSegments texts with
      | error fault =>
        rw [rest] at read
        cases read
      | ok outcome =>
        rw [rest] at read
        cases outcome with
        | none => cases read
        | some others =>
          cases read
          exact .cons readAs (ih rest)
    rw [readSegments] at read
    split at read
    · rename_i isStars
      rw [isStars] at goesOn ⊢
      exact goesOn .directories .stars read
    · rename_i notStars
      split at read
      · rename_i isStar
        rw [isStar] at goesOn ⊢
        exact goesOn .anyName .star read
      · cases cut : parts (text.toList.length + 1) text.toList with
        | error fault =>
          rw [cut] at read
          cases read
        | ok outcome =>
          rw [cut] at read
          cases outcome with
          | none => cases read
          | some parts => exact goesOn (.name parts) (.name notStars cut) read

/-- The double stars among texts between slashes are the segments that stand for directories. -/
theorem listwise_of_readSegments {texts : List String}
    (read : readSegments texts = .ok (some found)) :
    Listwise (fun text segment => text = stars ↔ segment = .directories) texts found := by
  refine (listwise_readSegments read).mono fun text segment readAs => ?_
  cases readAs with
  | stars => exact ⟨fun _ => rfl, fun _ => rfl⟩
  | star => exact ⟨fun same => absurd same (by decide), fun same => nomatch same⟩
  | name notStars cut => exact ⟨fun same => absurd same notStars, fun same => nomatch same⟩

/-! ## Normal forms -/

theorem exists_mergeStars_cons (first : String) (rest : List String) :
    ∃ more, mergeStars (first :: rest) = first :: more := by
  induction rest generalizing first with
  | nil => exact ⟨[], rfl⟩
  | cons second rest ih =>
    rw [mergeStars]
    split
    · rename_i same
      rw [same.1, ← same.2]
      exact ih second
    · exact ⟨_, rfl⟩

theorem mergeStars_ne_nil {segments : List String} (nonempty : segments ≠ []) :
    mergeStars segments ≠ [] := by
  obtain ⟨first, rest, rfl⟩ := List.exists_cons_of_ne_nil nonempty
  obtain ⟨more, merged⟩ := exists_mergeStars_cons first rest
  simp [merged]

theorem mergeStars_cons {first : String} (notStars : first ≠ stars) (rest : List String) :
    mergeStars (first :: rest) = first :: mergeStars rest := by
  cases rest with
  | nil => rfl
  | cons second rest => rw [mergeStars, if_neg (fun same => notStars same.1)]

theorem mergeStars_append (literal : ∀ name ∈ names, IsLiteral name) (more : List String) :
    mergeStars (names ++ more) = names ++ mergeStars more := by
  induction names with
  | nil => rfl
  | cons name names ih =>
    rw [List.cons_append, mergeStars_cons (literal name List.mem_cons_self).ne_stars,
      ih fun other member => literal other (by simp [member]), List.cons_append]

/-- In normal form no two double stars stand side by side. -/
theorem mergeStars_apart {segments rest : List String} {first second : String}
    (merged : mergeStars segments = first :: second :: rest) :
    ¬(first = stars ∧ second = stars) := by
  fun_induction mergeStars segments generalizing first second rest with
  | case1 => cases merged
  | case2 => cases merged
  | case3 a b others same ih => exact ih merged
  | case4 a b others apart ih =>
    obtain ⟨rfl, tail⟩ := List.cons.inj merged
    obtain ⟨more, next⟩ := exists_mergeStars_cons b others
    rw [next] at tail
    rw [← (List.cons.inj tail).1]
    exact apart

/-- The texts between slashes after a slash at the end has come to stand for everything below. -/
def closed (written : List String) : List String :=
  if written.getLast? = some "" then written.dropLast ++ [stars] else written

theorem closed_append (names : List String) {more : List String} (nonempty : more ≠ []) :
    closed (names ++ more) = names ++ closed more := by
  have last : (names ++ more).getLast? = more.getLast? := by
    rw [List.getLast?_append, List.getLast?_eq_some_getLast nonempty, Option.some_or]
  unfold closed
  rw [last, List.dropLast_append_of_ne_nil nonempty]
  split
  · rw [List.append_assoc]
  · rfl

theorem closed_ne_nil {written : List String} (nonempty : written ≠ []) : closed written ≠ [] := by
  unfold closed
  split
  · simp
  · exact nonempty

/-- Literal names stay where they stand.  One name alone before a slash at the end does not, since
it may match at any depth. -/
theorem segments_append {more : List String} (nonempty : names ≠ [])
    (literal : ∀ name ∈ names, IsLiteral name) (moreSome : more ≠ [])
    (fixed : 1 < names.length ∨ more ≠ [""]) :
    segments (names ++ more) = names ++ mergeStars (closed more) := by
  have anchored : segments (names ++ more) = mergeStars (closed (names ++ more)) := by
    obtain ⟨first, others, rfl⟩ := List.exists_cons_of_ne_nil nonempty
    obtain ⟨next, after, nextCons⟩ : ∃ next after, others ++ more = next :: after :=
      List.exists_cons_of_ne_nil (by simp [moreSome])
    have firstSome := (literal first List.mem_cons_self).nonempty
    have notClosing : ¬(next = "" ∧ after = []) := by
      rintro ⟨rfl, rfl⟩
      cases others with
      | nil =>
        rcases fixed with several | notEmpty
        · simp at several
        · exact notEmpty nextCons
      | cons other others =>
        obtain ⟨-, rest⟩ := List.cons.inj nextCons
        simp [moreSome] at rest
    rw [List.cons_append, nextCons]
    unfold segments closed
    dsimp only
    split
    · rename_i rest written
      exact absurd (List.cons.inj written).1 firstSome
    · rename_i single written
      cases (List.cons.inj written).2
    · rename_i single written
      obtain ⟨rfl, rfl⟩ := List.cons.inj (List.cons.inj written).2
      exact absurd ⟨rfl, rfl⟩ notClosing
    · rfl
  rw [anchored, closed_append names moreSome, mergeStars_append literal]

/-! ## Ends of lines -/

theorem trimmed_append (first rest : List Char) :
    trimmed (first ++ '/' :: rest) = first ++ '/' :: trimmed rest := by
  have ended : [' ', '\\'].isPrefixOf (rest.reverse ++ '/' :: first.reverse) =
      [' ', '\\'].isPrefixOf rest.reverse := by
    rcases rest.reverse with _ | ⟨c, _ | ⟨d, others⟩⟩ <;> simp [List.isPrefixOf]
  have slash : Text.isBlank '/' = false := by decide
  unfold trimmed Text.trimEnd
  simp only [List.reverse_append, List.reverse_cons, List.append_assoc, List.singleton_append]
  rw [ended]
  split
  · rfl
  · rw [List.dropWhile_append]
    split
    · rename_i none
      rw [List.isEmpty_iff.mp none, List.dropWhile_cons_of_neg (by simp [slash])]
      simp
    · simp

/-! ## Expressions -/

theorem body_literalSegment (name : String) :
    (literalSegment name).body = .ok (name.toList.map fun c => .one (.single c)) := by
  simp only [literalSegment, Segment.body]
  induction name.toList with
  | nil => rfl
  | cons c chars ih =>
    rw [List.map_cons, List.mapM_cons, ih]
    rfl

theorem translate_literalSegment (directoryPattern isFirst needsSlash : Bool) (name : String)
    (nonempty : rest ≠ []) :
    translate directoryPattern isFirst needsSlash (literalSegment name :: rest) =
      (translate directoryPattern false true rest).map fun patterns =>
        (if isFirst then [.anchor .textStart] else []) ++ (if needsSlash then [slash] else [])
          ++ (name.toList.map fun c => .one (.single c)) ++ patterns := by
  have notLast : rest.isEmpty = false := by simpa using nonempty
  rw [translate]
  simp only [notLast, body_literalSegment]
  cases translate directoryPattern false true rest with
  | error fault => rfl
  | ok patterns => simp [literalSegment, Except.map, bind, Except.bind, pure, Except.pure]

/-- Names on the way are matched literally, one after the other. -/
theorem translate_names (directoryPattern : Bool) (names : List String) (nonempty : rest ≠ []) :
    translate directoryPattern false true (names.map literalSegment ++ rest) =
      (translate directoryPattern false true rest).map fun patterns =>
        ((names.flatMap fun name => '/' :: name.toList).map fun c => .one (.single c))
          ++ patterns := by
  induction names with
  | nil =>
    rw [List.map_nil, List.nil_append]
    cases translate directoryPattern false true rest <;> rfl
  | cons name names ih =>
    rw [List.map_cons, List.cons_append, translate_literalSegment _ _ _ _ (by simp [nonempty]),
      ih]
    cases translate directoryPattern false true rest with
    | error fault => rfl
    | ok patterns => simp [Except.map, slash]

/-- Names at the start of a pattern are read as they are joined, from the start of the text on. -/
theorem translate_way (directoryPattern : Bool) (namesSome : names ≠ []) (nonempty : rest ≠ []) :
    translate directoryPattern true false (names.map literalSegment ++ rest) =
      (translate directoryPattern false true rest).map fun patterns =>
        .anchor .textStart ::
          (((Text.join "/" names).toList.map fun c => .one (.single c)) ++ patterns) := by
  obtain ⟨first, others, rfl⟩ := List.exists_cons_of_ne_nil namesSome
  rw [List.map_cons, List.cons_append, translate_literalSegment _ _ _ _ (by simp [nonempty]),
    translate_names _ _ nonempty, Text.toList_join_cons]
  cases translate directoryPattern false true rest with
  | error fault => rfl
  | ok patterns => simp [Except.map]

/-- A pattern that reads one character, or within a name as many as it can. -/
def OfBody (pattern : Pattern) : Prop :=
  (∃ set, pattern = .one set) ∨ ∃ least, pattern = .loop notSlash least none .greedy

theorem ofBody_of_part {part : Part} {pattern : Pattern} (known : part.pattern = .ok pattern) :
    OfBody pattern := by
  cases part with
  | character | anyCharacter =>
    cases known
    exact .inl ⟨_, rfl⟩
  | anyText =>
    cases known
    exact .inr ⟨_, rfl⟩
  | set negated members =>
    simp only [Part.pattern] at known
    split at known <;> cases known
    exact .inl ⟨_, rfl⟩

theorem ofBody_of_segment {segment : Segment} (known : segment.body = .ok patterns) :
    ∀ pattern ∈ patterns, OfBody pattern := by
  intro pattern member
  cases segment with
  | directories =>
    cases known
    cases member
  | anyName =>
    cases known
    exact .inr ⟨1, List.mem_singleton.mp member⟩
  | name parts =>
    obtain ⟨part, -, compiled⟩ := (Listwise.mapM_eq_ok_iff.mp known).exists_origin member
    exact ofBody_of_part compiled

theorem OfBody.isRegular {pattern : Pattern} (ofBody : OfBody pattern) :
    pattern.isRegular = true := by
  obtain ⟨_, rfl⟩ | ⟨_, rfl⟩ := ofBody <;> rfl

/-- What the expression of segments starts with, and what is left for the segments after the first
one. -/
theorem translate_cases {isFirst needsSlash : Bool} {segment : Segment}
    (translated : translate directoryPattern isFirst needsSlash (segment :: rest) = .ok patterns) :
    (segment = .directories ∧ isFirst = true ∧ ∃ others,
        translate directoryPattern false false rest = .ok others ∧
          patterns = .anchor .textStart ::
            .loop (.append someText slash) 0 (some 1) .greedy :: others) ∨
      (segment = .directories ∧ isFirst = false ∧ rest = [] ∧
        patterns = [if directoryPattern then directoryMark else slash]) ∨
      (segment = .directories ∧ isFirst = false ∧ rest ≠ [] ∧ ∃ others,
        translate directoryPattern false true rest = .ok others ∧
          patterns = .loop (.append slash someText) 0 (some 1) .greedy :: others) ∨
      (segment ≠ .directories ∧ ∃ body others, segment.body = .ok body ∧
        translate directoryPattern false true rest = .ok others ∧
          patterns = (if isFirst then [.anchor .textStart] else [])
            ++ (if needsSlash then [slash] else []) ++ body
            ++ (if rest.isEmpty then [.either directoryMark (.anchor .lastLineEnd)] else [])
            ++ others) := by
  rw [translate] at translated
  dsimp only at translated
  split at translated
  · rename_i isDirectories
    split at translated
    · rename_i first
      cases others : translate directoryPattern false false rest with
      | error fault =>
        rw [others] at translated
        cases translated
      | ok found =>
        rw [others] at translated
        cases translated
        exact .inl ⟨isDirectories, first, found, rfl, rfl⟩
    · rename_i notFirst
      have isFirstFalse := Bool.eq_false_iff.mpr notFirst
      split at translated
      · rename_i last
        cases translated
        exact .inr (.inl ⟨isDirectories, isFirstFalse, List.isEmpty_iff.mp last, rfl⟩)
      · rename_i notLast
        have restSome : rest ≠ [] := fun none => notLast (List.isEmpty_iff.mpr none)
        cases others : translate directoryPattern false true rest with
        | error fault =>
          rw [others] at translated
          cases translated
        | ok found =>
          rw [others] at translated
          cases translated
          exact .inr (.inr (.inl ⟨isDirectories, isFirstFalse, restSome, found, rfl, rfl⟩))
  · rename_i notDirectories
    cases bodyKnown : segment.body with
    | error fault =>
      rw [bodyKnown] at translated
      cases translated
    | ok body =>
      rw [bodyKnown] at translated
      cases others : translate directoryPattern false true rest with
      | error fault =>
        rw [others] at translated
        cases translated
      | ok found =>
        rw [others] at translated
        cases translated
        exact .inr (.inr (.inr ⟨notDirectories, body, found, rfl, rfl, rfl⟩))

/-- Ignore patterns use nothing but regular expressions. -/
theorem isRegular_of_translate {isFirst needsSlash : Bool} {segments : List Segment}
    (translated : translate directoryPattern isFirst needsSlash segments = .ok patterns) :
    ∀ pattern ∈ patterns, pattern.isRegular = true := by
  induction segments generalizing isFirst needsSlash patterns with
  | nil =>
    cases translated
    simp
  | cons segment rest ih =>
    rcases translate_cases translated with ⟨-, -, others, known, rfl⟩ | ⟨-, -, -, rfl⟩ |
      ⟨-, -, -, others, known, rfl⟩ | ⟨-, body, others, bodyKnown, known, rfl⟩
    · simp only [List.forall_mem_cons]
      exact ⟨rfl, rfl, ih known⟩
    · cases directoryPattern <;> simp only [List.forall_mem_singleton] <;> rfl
    · simp only [List.forall_mem_cons]
      exact ⟨rfl, ih known⟩
    · simp only [List.forall_mem_append]
      refine ⟨⟨⟨⟨?_, ?_⟩, fun _ member => (ofBody_of_segment bodyKnown _ member).isRegular⟩, ?_⟩,
        ih known⟩
      · split <;> simp [Pattern.isRegular]
      · split <;> simp [Pattern.isRegular, slash]
      · split <;> simp [Pattern.isRegular, directoryMark, slash]

/-- Behind a name nothing is read without a slash. -/
theorem slash_of_reads {segments : List Segment} (nonempty : segments ≠ [])
    (apart : ∀ first second rest, segments = first :: second :: rest →
      ¬(first = .directories ∧ second = .directories))
    (translated : translate directoryPattern false true segments = .ok patterns)
    {start finish : Cursor} (reads : Reads subject (Pattern.sequence patterns) start finish) :
    subject[start.position]? = some '/' := by
  have ofSlash : ∀ {others start finish},
      Reads subject (Pattern.sequence (slash :: others)) start finish →
        subject[start.position]? = some '/' := by
    intro others start finish reads
    obtain ⟨middle, here, -⟩ := Regex.reads_sequence_cons.mp reads
    exact (Regex.reads_single.mp here).1
  have ofName : ∀ {segment rest patterns start finish}, segment ≠ .directories →
      translate directoryPattern false true (segment :: rest) = .ok patterns →
      Reads subject (Pattern.sequence patterns) start finish →
      subject[start.position]? = some '/' := by
    intro segment rest patterns start finish isName translated reads
    rcases translate_cases translated with ⟨isDirectories, -⟩ | ⟨isDirectories, -⟩ |
      ⟨isDirectories, -⟩ | ⟨-, body, others, -, -, rfl⟩
    · exact absurd isDirectories isName
    · exact absurd isDirectories isName
    · exact absurd isDirectories isName
    · exact ofSlash reads
  obtain ⟨segment, rest, rfl⟩ := List.exists_cons_of_ne_nil nonempty
  rcases translate_cases translated with ⟨-, first, -⟩ | ⟨-, -, -, rfl⟩ |
    ⟨isDirectories, -, restSome, others, known, rfl⟩ | ⟨isName, -⟩
  · cases first
  · cases directoryPattern with
    | true =>
      cases reads with
      | group way => exact (Regex.reads_single.mp way).1
    | false => exact (Regex.reads_single.mp reads).1
  · obtain ⟨middle, between, after⟩ := Regex.reads_sequence_cons.mp reads
    cases between with
    | stop =>
      obtain ⟨second, more, rfl⟩ := List.exists_cons_of_ne_nil restSome
      exact ofName (fun same => apart segment second more rfl ⟨isDirectories, same⟩) known after
    | optional allowed round rounds =>
      cases round with
      | append before behind => exact (Regex.reads_single.mp before).1
  · exact ofName isName translated reads

/-! ## Compiled lines -/

/-- Compiles a line from behind the mark of a negation, or from its beginning where it has none. -/
def compileBody (ignores : Bool) (body : List Char) : Except PatternFault (Option Matcher) :=
  let written := (Text.splitChars '/' body).map String.ofList
  let normal := segments written
  if normal.isEmpty then .error .malformed
  else do
    match ← readSegments normal with
    | none => return none
    | some found => return some ⟨ignores, ← ofSegments (written.getLast? == some "") found⟩

/-- A line has no effect, or a pattern behind the mark of a negation, or is a pattern. -/
theorem compile_cases (line : String) :
    ((trimmed line.toList = [] ∨ (trimmed line.toList).head? = some '#' ∨
        trimmed line.toList = ['/']) ∧ compile line = .ok none) ∨
      (∃ body, trimmed line.toList = '!' :: body ∧ compile line = compileBody false body) ∨
      (trimmed line.toList ≠ [] ∧ (trimmed line.toList).head? ≠ some '#' ∧
        (trimmed line.toList).head? ≠ some '!' ∧
        compile line = compileBody true (trimmed line.toList)) := by
  unfold compile
  dsimp only
  generalize trimmed line.toList = text
  split
  · rename_i without
    rw [Bool.or_eq_true, Bool.or_eq_true, List.isEmpty_iff, beq_iff_eq, beq_iff_eq, or_assoc]
      at without
    exact .inl ⟨without, rfl⟩
  · rename_i pattern
    rw [Bool.or_eq_true, Bool.or_eq_true, List.isEmpty_iff, beq_iff_eq, beq_iff_eq, or_assoc,
      not_or, not_or] at pattern
    obtain ⟨nonempty, notRemark, -⟩ := pattern
    split
    · exact .inr (.inl ⟨_, rfl, rfl⟩)
    · rename_i positive
      refine .inr (.inr ⟨nonempty, notRemark, fun negated => ?_, rfl⟩)
      obtain ⟨rest, starts⟩ := List.head?_eq_some_iff.mp negated
      exact positive rest starts

/-- The way along names does not start like a comment or a negation. -/
def StartsPlainly (names : List String) : Prop :=
  ∀ c ∈ (Text.join "/" names).toList.head?, c ≠ '#' ∧ c ≠ '!'

theorem exists_join_cons (nonempty : names ≠ []) (literal : ∀ name ∈ names, IsLiteral name) :
    ∃ c rest, (Text.join "/" names).toList = c :: rest := by
  obtain ⟨first, others, rfl⟩ := List.exists_cons_of_ne_nil nonempty
  have firstSome : first.toList ≠ [] := by
    simpa using (literal first List.mem_cons_self).nonempty
  obtain ⟨c, more, firstCons⟩ := List.exists_cons_of_ne_nil firstSome
  rw [Text.toList_join_cons, firstCons]
  exact ⟨c, _, rfl⟩

theorem ofSegments_literal (directoryPattern : Bool) (nonempty : names ≠ []) (rest : List Segment) :
    ofSegments directoryPattern (names.map literalSegment ++ rest) =
      (translate directoryPattern true false (names.map literalSegment ++ rest)).map
        Pattern.sequence := by
  obtain ⟨first, others, rfl⟩ := List.exists_cons_of_ne_nil nonempty
  rfl

/-- A line that starts with literal names and a slash is compiled to an expression that starts with
them; the segments behind them have the expression that they would have behind any name. -/
theorem compile_way (nonempty : names ≠ []) (literal : ∀ name ∈ names, IsLiteral name)
    (starts : StartsPlainly names)
    (lineEqual : line.toList = (Text.join "/" names).toList ++ '/' :: tail)
    (fixed : 1 < names.length ∨ trimmed tail ≠ []) :
    compile line = (do
      let more := (Text.splitChars '/' (trimmed tail)).map String.ofList
      match ← readSegments (mergeStars (closed more)) with
      | none => return none
      | some found =>
        let patterns ← translate (more.getLast? == some "") false true found
        return some ⟨true, Pattern.sequence (.anchor .textStart ::
          (((Text.join "/" names).toList.map fun c => .one (.single c)) ++ patterns))⟩) := by
  obtain ⟨c, others, joined⟩ := exists_join_cons nonempty literal
  have text : trimmed line.toList = c :: others ++ '/' :: trimmed tail := by
    rw [lineEqual, joined, trimmed_append]
  obtain ⟨notRemark, notNegation⟩ := starts c (by rw [joined]; rfl)
  have free : ∀ name ∈ names, Text.IsFreeOf '/' name :=
    fun name member => (literal name member).free
  have written := Text.split_join_append nonempty free (trimmed tail)
  rw [joined] at written
  have moreSome : (Text.splitChars '/' (trimmed tail)).map String.ofList ≠ [] := by
    simpa using Text.splitChars_ne_nil '/' (trimmed tail)
  have moreFixed : 1 < names.length ∨
      (Text.splitChars '/' (trimmed tail)).map String.ofList ≠ [""] :=
    fixed.imp_right Text.splitChars_ne_empty
  have normal := segments_append nonempty literal moreSome moreFixed
  have normalSome : (names ++ mergeStars (closed
      ((Text.splitChars '/' (trimmed tail)).map String.ofList))).isEmpty = false := by
    simp [nonempty]
  rcases compile_cases line with ⟨without, -⟩ | ⟨body, negated, -⟩ | ⟨-, -, -, compiled⟩
  · rw [text] at without
    rcases without with none | remark | lone
    · cases none
    · exact absurd (Option.some.inj remark) notRemark
    · simp at lone
  · rw [text] at negated
    exact absurd (List.cons.inj negated).1 notNegation
  · rw [compiled, text]
    unfold compileBody
    have last := List.getLast?_eq_some_getLast moreSome
    simp only [List.cons_append] at written ⊢
    simp only [written, normal, normalSome, Bool.false_eq_true, if_false,
      readSegments_append literal, List.getLast?_append, last, Option.some_or]
    cases read : readSegments (mergeStars (closed
        ((Text.splitChars '/' (trimmed tail)).map String.ofList))) with
    | error fault => rfl
    | ok outcome =>
      cases outcome with
      | none => rfl
      | some found =>
        have foundSome : found ≠ [] := by
          rintro rfl
          have same := (listwise_of_readSegments read).length_eq
          exact mergeStars_ne_nil (closed_ne_nil moreSome) (List.length_eq_zero_iff.mp same)
        simp only [Except.map, Option.map, bind, Except.bind, pure, Except.pure,
          ofSegments_literal _ nonempty, translate_way _ nonempty foundSome]
        cases translate (some _ == some "") false true found <;> rfl

/-- What such a line is compiled to, if it is a pattern at all. -/
theorem exists_of_compile_way (nonempty : names ≠ []) (literal : ∀ name ∈ names, IsLiteral name)
    (starts : StartsPlainly names)
    (lineEqual : line.toList = (Text.join "/" names).toList ++ '/' :: tail)
    (fixed : 1 < names.length ∨ trimmed tail ≠ []) (compiled : compile line = .ok (some matcher)) :
    ∃ directoryPattern found patterns, found ≠ [] ∧
      (∀ first second rest, found = first :: second :: rest →
        ¬(first = .directories ∧ second = .directories)) ∧
      translate directoryPattern false true found = .ok patterns ∧
      matcher = ⟨true, Pattern.sequence (.anchor .textStart ::
        (((Text.join "/" names).toList.map fun c => .one (.single c)) ++ patterns))⟩ := by
  rw [compile_way nonempty literal starts lineEqual fixed] at compiled
  dsimp only at compiled
  have moreSome : (Text.splitChars '/' (trimmed tail)).map String.ofList ≠ [] := by
    simpa using Text.splitChars_ne_nil '/' (trimmed tail)
  generalize (Text.splitChars '/' (trimmed tail)).map String.ofList = more at compiled moreSome
  have mergedSome := mergeStars_ne_nil (closed_ne_nil moreSome)
  cases read : readSegments (mergeStars (closed more)) with
  | error fault =>
    rw [read] at compiled
    cases compiled
  | ok outcome =>
    rw [read] at compiled
    cases outcome with
    | none => cases compiled
    | some found =>
      cases translated : translate (more.getLast? == some "") false true found with
      | error fault =>
        simp only [bind, Except.bind, translated] at compiled
        cases compiled
      | ok patterns =>
        simp only [bind, Except.bind, translated] at compiled
        cases compiled
        have related := listwise_of_readSegments read
        refine ⟨_, found, patterns, ?_, ?_, translated, rfl⟩
        · rintro rfl
          exact mergedSome (List.length_eq_zero_iff.mp related.length_eq)
        · rintro first second rest rfl ⟨firstDirectories, secondDirectories⟩
          generalize mergedCons : mergeStars (closed more) = merged at related
          cases related with
          | cons head tail =>
            cases tail with
            | cons next others =>
              exact mergeStars_apart mergedCons
                ⟨head.mpr firstDirectories, next.mpr secondDirectories⟩

/-! ## What compiled lines match -/

theorem isSome_strength?_iff (regular : matcher.expression.isRegular = true) {path : String} :
    (matcher.strength? path).isSome = true ↔
      ∃ start ≤ path.toList.length, ∃ next,
        Reads path.toList.toArray matcher.expression ⟨start, []⟩ next := by
  rw [strength?, Option.isSome_map, Regex.isSome_searchFrom?_iff regular]
  simp only [Nat.zero_le, true_and, Nat.zero_add, Nat.lt_succ_iff, List.size_toArray]

theorem isRegular_way (translated : translate directoryPattern false true found = .ok patterns) :
    (Pattern.sequence (.anchor .textStart ::
      ((text.map fun c => .one (.single c)) ++ patterns))).isRegular = true := by
  apply Regex.isRegular_sequence
  simp only [List.forall_mem_cons, List.forall_mem_append, List.forall_mem_map]
  exact ⟨rfl, fun _ _ => rfl, isRegular_of_translate translated⟩

/-- What a line matches that starts with literal names lies below the directory that they lead to.
-/
theorem prefix_of_strength? (nonempty : names ≠ []) (literal : ∀ name ∈ names, IsLiteral name)
    (starts : StartsPlainly names)
    (lineEqual : line.toList = (Text.join "/" names).toList ++ '/' :: tail)
    (fixed : 1 < names.length ∨ trimmed tail ≠ []) (compiled : compile line = .ok (some matcher))
    {path : String} (matched : (matcher.strength? path).isSome = true) :
    (Text.join "/" names).toList ++ ['/'] <+: path.toList := by
  obtain ⟨directoryPattern, found, patterns, foundSome, apart, translated, rfl⟩ :=
    exists_of_compile_way nonempty literal starts lineEqual fixed compiled
  rw [isSome_strength?_iff (isRegular_way translated)] at matched
  obtain ⟨start, -, next, reads⟩ := matched
  obtain ⟨middle, atStart, others⟩ := Regex.reads_sequence_cons.mp reads
  cases atStart with
  | anchor holds =>
    have isStart : start = 0 := by simpa [Regex.Anchor.holds] using holds
    subst isStart
    obtain ⟨stands, behind⟩ := Regex.reads_literal_append.mp others
    have slash := slash_of_reads foundSome apart translated behind
    simp only [List.drop_zero, Nat.zero_add, List.getElem?_toArray] at stands slash
    obtain ⟨rest, whole⟩ := stands
    rw [← whole] at slash ⊢
    cases rest with
    | nil => simp at slash
    | cons c rest =>
      simp only [List.getElem?_append_right (Nat.le_refl _), Nat.sub_self,
        List.getElem?_cons_zero, Option.some.injEq] at slash
      exact ⟨rest, by simp [slash]⟩

/-- Any text of one line is read by what stands for any text. -/
theorem reads_someText {c : Char} (inLine : '\n' ∉ c :: text) {cursor : Cursor}
    (stands : c :: text <+: subject.toList.drop cursor.position) :
    Reads subject someText cursor
      { cursor with position := cursor.position + (c :: text).length } := by
  have each : ∀ other ∈ c :: text, Regex.CharSet.anyButLineFeed.contains other = true := by
    intro other member
    have different : other ≠ '\n' := fun same => inLine (same ▸ member)
    have apart : other.toNat ≠ ('\n').toNat := fun same => different (Char.toNat_inj.mp same)
    have outside : Regex.isBetween '\n' '\n' other = false := by
      simp only [Regex.isBetween, Bool.and_eq_false_iff, decide_eq_false_iff_not]
      omega
    simp [Regex.CharSet.contains, Regex.CharSet.anyButLineFeed, Regex.Atom.covers, outside]
  obtain ⟨here, further⟩ := Regex.cons_prefix_drop_iff.mp stands
  rw [Array.getElem?_toList] at here
  let next : Cursor := { cursor with position := cursor.position + 1 }
  have rounds : Reads subject (.loop (.one .anyButLineFeed) 0 none .greedy) next
      { next with position := next.position + text.length } :=
    Regex.reads_run (fun other member => each other (by simp [member])) .greedy further
  rw [List.length_cons, Nat.add_comm text.length, ← Nat.add_assoc]
  exact .required (.one here (each c List.mem_cons_self)) rounds

/-! ## A name at any depth -/

/-- The expression of a name that may stand at any depth below a directory. -/
def nameBelow (directory name : List Char) : Pattern :=
  Pattern.sequence (.anchor .textStart :: ((directory.map fun c => .one (.single c)) ++
    (.loop (.append slash someText) 0 (some 1) .greedy ::
      ((('/' :: name).map fun c => .one (.single c)) ++
        [.either directoryMark (.anchor .lastLineEnd)]))))

theorem trimmed_of_last (last : ∀ c ∈ text.getLast?, Text.isBlank c = false) :
    trimmed text = text := by
  unfold trimmed Text.trimEnd
  split
  · rfl
  · cases reversed : text.reverse with
    | nil => simp_all
    | cons c rest =>
      have isLast : text.getLast? = some c := by rw [← List.head?_reverse, reversed]; rfl
      rw [List.dropWhile_cons_of_neg (by simp [last c isLast]), ← reversed, List.reverse_reverse]

theorem translate_nameBelow (directoryPattern : Bool) (name : String) :
    translate directoryPattern false true [.directories, literalSegment name] =
      .ok (.loop (.append slash someText) 0 (some 1) .greedy ::
        ((('/' :: name.toList).map fun c => .one (.single c)) ++
          [.either directoryMark (.anchor .lastLineEnd)])) := by
  have single : translate directoryPattern false true [literalSegment name] =
      .ok ((('/' :: name.toList).map fun c => .one (.single c)) ++
        [.either directoryMark (.anchor .lastLineEnd)]) := by
    rw [translate]
    simp only [body_literalSegment]
    simp [literalSegment, translate, slash, bind, Except.bind, pure, Except.pure]
  rw [translate]
  simp only [single]
  rfl

/-- A literal name behind double stars is compiled to an expression for it at any depth. -/
theorem compile_nameBelow (nonempty : names ≠ []) (literal : ∀ name ∈ names, IsLiteral name)
    (starts : StartsPlainly names) (nameLiteral : IsLiteral name)
    (last : ∀ c ∈ name.toList.getLast?, Text.isBlank c = false)
    (lineEqual : line.toList =
      (Text.join "/" names).toList ++ '/' :: ('*' :: '*' :: '/' :: name.toList)) :
    compile line =
      .ok (some ⟨true, nameBelow (Text.join "/" names).toList name.toList⟩) := by
  have kept : trimmed ('*' :: '*' :: '/' :: name.toList) = '*' :: '*' :: '/' :: name.toList := by
    have appended := trimmed_append ['*', '*'] name.toList
    rwa [trimmed_of_last last] at appended
  have pieces : (Text.splitChars '/' ('*' :: '*' :: '/' :: name.toList)).map String.ofList =
      [stars, name] := by
    have first : Text.splitChars '/' (['*', '*'] ++ '/' :: name.toList) =
        ['*', '*'] :: Text.splitChars '/' name.toList :=
      Text.splitChars_append (by decide)
    change (Text.splitChars '/' (['*', '*'] ++ '/' :: name.toList)).map String.ofList = _
    rw [first, Text.splitChars_of_free nameLiteral.free, List.map_cons, List.map_singleton,
      String.ofList_toList]
    rfl
  have normal : mergeStars (closed [stars, name]) = [stars, name] := by
    rw [closed, if_neg (by simp [nameLiteral.nonempty]), mergeStars,
      if_neg (fun same => nameLiteral.ne_stars same.2)]
    rfl
  have read : readSegments [stars, name] = .ok (some [.directories, literalSegment name]) := by
    have single : readSegments ([name] ++ []) =
        (readSegments []).map (·.map ([name].map literalSegment ++ ·)) :=
      readSegments_append (by simpa using nameLiteral) []
    rw [List.append_nil] at single
    rw [readSegments, single]
    rfl
  rw [compile_way nonempty literal starts lineEqual (.inr (by rw [kept]; simp)), kept, pieces]
  dsimp only
  rw [normal, read]
  simp only [bind, Except.bind, translate_nameBelow]
  rfl

/-- The directories between are read as any text behind a slash. -/
theorem reads_between {between : List String} (nonempty : ∀ other ∈ between, other ≠ "")
    (inLine : ∀ other ∈ between, '\n' ∉ other.toList) {cursor : Cursor}
    (stands : (between.flatMap fun other => '/' :: other.toList) <+:
      subject.toList.drop cursor.position) :
    Reads subject (.loop (.append slash someText) 0 (some 1) .greedy) cursor
      { cursor with
        position :=
          cursor.position + (between.flatMap fun other => '/' :: other.toList).length } := by
  cases between with
  | nil => exact .stop
  | cons first others =>
    have firstSome : first.toList ≠ [] := by simpa using nonempty first List.mem_cons_self
    obtain ⟨c, rest, firstCons⟩ := List.exists_cons_of_ne_nil firstSome
    have shown : ((first :: others).flatMap fun other => '/' :: other.toList) =
        '/' :: c :: (rest ++ others.flatMap fun other => '/' :: other.toList) := by
      rw [List.flatMap_cons, firstCons]
      rfl
    have noFeed : '\n' ∉ c :: (rest ++ others.flatMap fun other => '/' :: other.toList) := by
      rw [← List.cons_append, ← firstCons, List.mem_append, not_or]
      refine ⟨inLine first List.mem_cons_self, fun member => ?_⟩
      obtain ⟨other, otherMember, found⟩ := List.mem_flatMap.mp member
      rcases List.mem_cons.mp found with impossible | inside
      · cases impossible
      · exact inLine other (List.mem_cons_of_mem _ otherMember) inside
    rw [shown] at stands ⊢
    obtain ⟨here, further⟩ := Regex.cons_prefix_drop_iff.mp stands
    rw [Array.getElem?_toList] at here
    rw [List.length_cons, Nat.add_comm _ 1, ← Nat.add_assoc]
    exact .optional (by simp)
      (.append (Regex.reads_single.mpr ⟨here, rfl⟩) (reads_someText noFeed further)) .stop

/-- A name is found at any depth below the directory, if the directories between are told in one
line. -/
theorem reads_nameBelow {directory name : List Char} {between : List String}
    (nonempty : ∀ other ∈ between, other ≠ "") (inLine : ∀ other ∈ between, '\n' ∉ other.toList) :
    ∃ next, Reads
      (directory ++ ((between.flatMap fun other => '/' :: other.toList) ++ '/' :: name)).toArray
      (nameBelow directory name) ⟨0, []⟩ next := by
  generalize ways : (between.flatMap fun other => '/' :: other.toList) = way
  have atDirectory : directory <+: (directory ++ (way ++ '/' :: name)).drop 0 :=
    List.prefix_append _ _
  have atWay : way <+: (directory ++ (way ++ '/' :: name)).drop (0 + directory.length) := by
    rw [Nat.zero_add, List.drop_left]
    exact List.prefix_append _ _
  have atName : '/' :: name <+:
      (directory ++ (way ++ '/' :: name)).drop (0 + directory.length + way.length) := by
    have dropped : (directory ++ (way ++ '/' :: name)).drop (0 + directory.length + way.length) =
        '/' :: name := by
      rw [Nat.zero_add, ← List.length_append, ← List.append_assoc, List.drop_left]
    exact ⟨[], by rw [List.append_nil, dropped]⟩
  have atEnd : Regex.Anchor.lastLineEnd.holds (directory ++ (way ++ '/' :: name)).toArray
      (0 + directory.length + way.length + ('/' :: name).length) = true := by
    simp [Regex.Anchor.holds, Nat.add_assoc]
  have throughWay : Reads (directory ++ (way ++ '/' :: name)).toArray
      (.loop (.append slash someText) 0 (some 1) .greedy) ⟨0 + directory.length, []⟩
      ⟨0 + directory.length + way.length, []⟩ := by
    subst ways
    exact reads_between nonempty inLine atWay
  exact ⟨_, Regex.reads_sequence_cons.mpr ⟨_, .anchor rfl, Regex.reads_literal_append.mpr
    ⟨atDirectory, Regex.reads_sequence_cons.mpr ⟨_, throughWay, Regex.reads_literal_append.mpr
      ⟨atName, .eitherSecond (.anchor atEnd)⟩⟩⟩⟩⟩

end Matcher
end Ignore
end ModuleAtlas
