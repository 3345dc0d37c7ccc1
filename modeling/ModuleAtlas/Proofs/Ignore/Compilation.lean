import ModuleAtlas.Proofs.Ignore.Persisting

/-!
# The compilation of ignore files

The lines that are no patterns, and what becomes of ignore files that have such lines.
-/

namespace ModuleAtlas
namespace Ignore

/-!
## Lines that are no patterns

A line without sets is no pattern exactly when nothing is left of it behind the mark of a negation,
or when a name in it ends with a backslash that has nothing to escape.
-/

namespace Matcher

open Regex (Pattern)

/-! ### Open escapes -/

/-- Whether a text ends with a backslash that has nothing to escape. -/
def endsOpen : List Char → Bool
  | [] => false
  | '\\' :: [] => true
  | '\\' :: _ :: rest => endsOpen rest
  | _ :: rest => endsOpen rest

theorem endsOpen_cons {c : Char} (notBackslash : c ≠ '\\') (rest : List Char) :
    endsOpen (c :: rest) = endsOpen rest := by
  rw [endsOpen]
  · rintro rfl
    exact absurd rfl notBackslash
  · rintro _ _ rfl
    exact absurd rfl notBackslash

theorem ne_backslash {c : Char} {rest : List Char} (notLast : c = '\\' → rest = [] → False)
    (notEscaping : ∀ escaped more, c = '\\' → rest = escaped :: more → False) :
    c ≠ '\\' := by
  intro isBackslash
  cases rest with
  | nil => exact notLast isBackslash rfl
  | cons escaped more => exact notEscaping escaped more isBackslash rfl

/-- What follows a text whose escapes are complete is read from its own start. -/
theorem endsOpen_append {first : List Char} (complete : endsOpen first = false)
    (second : List Char) :
    endsOpen (first ++ second) = endsOpen second := by
  fun_induction endsOpen first with
  | case1 => rfl
  | case2 => cases complete
  | case3 escaped rest ih => exact ih complete
  | case4 c rest notLast notEscaping ih =>
    rw [List.cons_append, endsOpen_cons (ne_backslash notLast notEscaping)]
    exact ih complete

/-- A text with an open escape has a piece between slashes with an open one. -/
theorem exists_piece_endsOpen (text : List Char) (isOpen : endsOpen text = true) :
    ∃ piece ∈ Text.splitChars '/' text, endsOpen piece = true := by
  by_cases slash : '/' ∈ text
  · obtain ⟨piece, rest, split, free⟩ := List.eq_append_cons_of_mem slash
    rw [split] at isOpen
    rw [split, Text.splitChars_append free]
    cases pieceOpen : endsOpen piece with
    | true => exact ⟨piece, List.mem_cons_self, pieceOpen⟩
    | false =>
      rw [endsOpen_append pieceOpen, endsOpen_cons (by decide)] at isOpen
      obtain ⟨other, member, otherOpen⟩ := exists_piece_endsOpen rest isOpen
      exact ⟨other, List.mem_cons_of_mem _ member, otherOpen⟩
  · rw [Text.splitChars_of_free slash]
    exact ⟨text, List.mem_singleton_self text, isOpen⟩
termination_by text.length
decreasing_by
  rw [split, List.length_append, List.length_cons]
  omega

/-! ### Names without sets -/

theorem exists_map_cons
    {outcome : Except PatternFault (Option (List Part))} {isOpen : Bool} (part : Part)
    (known : ∃ found, outcome = if isOpen then .error .malformed else .ok (some found)) :
    ∃ found, outcome.map (·.map (part :: ·)) =
      if isOpen then .error .malformed else .ok (some found) := by
  obtain ⟨found, rfl⟩ := known
  cases isOpen with
  | true => exact ⟨[], rfl⟩
  | false => exact ⟨part :: found, rfl⟩

/-- A name without sets is cut into parts unless it ends with an open escape. -/
theorem exists_parts {fuel : Nat} {chars : List Char} (enough : chars.length < fuel)
    (noSet : '[' ∉ chars) :
    ∃ found, parts fuel chars =
      if endsOpen chars then .error .malformed else .ok (some found) := by
  fun_induction endsOpen chars generalizing fuel with
  | case1 =>
    obtain ⟨fuel, rfl⟩ := Nat.exists_eq_succ_of_ne_zero (Nat.ne_zero_of_lt enough)
    exact ⟨[], rfl⟩
  | case2 =>
    obtain ⟨fuel, rfl⟩ := Nat.exists_eq_succ_of_ne_zero (Nat.ne_zero_of_lt enough)
    exact ⟨[], rfl⟩
  | case3 escaped rest ih =>
    obtain ⟨fuel, rfl⟩ := Nat.exists_eq_succ_of_ne_zero (Nat.ne_zero_of_lt enough)
    simp only [List.mem_cons, List.length_cons, not_or] at enough noSet
    exact exists_map_cons _ (ih (by omega) noSet.2.2)
  | case4 c rest notLast notEscaping ih =>
    obtain ⟨fuel, rfl⟩ := Nat.exists_eq_succ_of_ne_zero (Nat.ne_zero_of_lt enough)
    simp only [List.mem_cons, List.length_cons, not_or] at enough noSet
    have others := ih (by omega : rest.length < fuel) noSet.2
    -- Stars and question marks are cases of cutting but not of looking for escapes.
    by_cases star : c = '*'
    · subst star
      exact exists_map_cons .anyText others
    by_cases mark : c = '?'
    · subst mark
      exact exists_map_cons .anyCharacter others
    rw [parts]
    · exact exists_map_cons (.character c) others
    · exact ne_backslash notLast notEscaping
    · exact star
    · exact mark
    · exact Ne.symm noSet.1

variable {text : String} {written : List String}

theorem not_endsOpen_of_special (special : text = stars ∨ text = "*") :
    endsOpen text.toList = false := by
  rcases special with rfl | rfl <;> decide

/-- Names without sets are read unless one of them ends with an open escape. -/
theorem exists_readSegments
    {texts : List String} (noSet : ∀ text ∈ texts, '[' ∉ text.toList) :
    ∃ found, readSegments texts =
      if texts.any (fun text => endsOpen text.toList) then .error .malformed
      else .ok (some found) := by
  induction texts with
  | nil => exact ⟨[], rfl⟩
  | cons text rest ih =>
    obtain ⟨others, restRead⟩ := ih fun other member =>
      noSet other (List.mem_cons_of_mem _ member)
    have goesOn : ∀ segment : Segment, endsOpen text.toList = false →
        ∃ found, (do return (← readSegments rest).map (segment :: ·)) =
          if (text :: rest).any (fun text => endsOpen text.toList) then
            (.error .malformed : Except PatternFault (Option (List Segment)))
          else .ok (some found) := by
      intro segment complete
      refine ⟨segment :: others, ?_⟩
      rw [restRead, List.any_cons, complete, Bool.false_or]
      split <;> rfl
    rw [readSegments]
    split
    · rename_i isStars
      exact goesOn .directories (not_endsOpen_of_special (.inl isStars))
    · split
      · rename_i isStar
        exact goesOn .anyName (not_endsOpen_of_special (.inr isStar))
      · obtain ⟨found, cut⟩ :=
          exists_parts (Nat.lt_succ_self _) (noSet text List.mem_cons_self)
        rw [cut]
        cases isOpen : endsOpen text.toList with
        | true =>
          refine ⟨[], ?_⟩
          rw [List.any_cons, isOpen]
          rfl
        | false => exact goesOn (.name found) isOpen

/-! ### Expressions of simple segments -/

theorem exists_body {segment : Segment} (simple : segment.IsSimple) :
    ∃ patterns, segment.body = .ok patterns := by
  cases segment with
  | directories => exact ⟨_, rfl⟩
  | anyName => exact ⟨_, rfl⟩
  | name found =>
    have each := simple found rfl
    cases ran : found.mapM Part.pattern with
    | ok patterns => exact ⟨patterns, ran⟩
    | error fault =>
      obtain ⟨before, part, after, rfl, -, failed⟩ := Listwise.mapM_eq_error_iff.mp ran
      cases each part (by simp) <;> cases failed

/-- Segments without a broken group can be translated. -/
theorem exists_translate (directoryPattern : Bool) {segments : List Segment}
    (simple : ∀ segment ∈ segments, segment.IsSimple) :
    ∀ isFirst needsSlash, ∃ patterns,
      translate directoryPattern isFirst needsSlash segments = .ok patterns := by
  induction segments with
  | nil => exact fun _ _ => ⟨_, rfl⟩
  | cons segment rest ih =>
    intro isFirst needsSlash
    have others := ih fun other member =>
      simple other (List.mem_cons_of_mem _ member)
    obtain ⟨body, known⟩ := exists_body (simple segment List.mem_cons_self)
    obtain ⟨after, afterKnown⟩ := others false false
    obtain ⟨slashed, slashedKnown⟩ := others false true
    rw [translate, known, afterKnown, slashedKnown]
    split
    · split
      · exact ⟨_, rfl⟩
      · split <;> exact ⟨_, rfl⟩
    · exact ⟨_, rfl⟩

theorem exists_ofSegments (directoryPattern : Bool) {segments : List Segment}
    (simple : ∀ segment ∈ segments, segment.IsSimple) :
    ∃ pattern, ofSegments directoryPattern segments = .ok pattern := by
  unfold ofSegments
  split
  · exact ⟨_, rfl⟩
  · exact ⟨_, rfl⟩
  · exact ⟨_, rfl⟩
  · obtain ⟨patterns, known⟩ := exists_translate directoryPattern simple true false
    rw [known]
    exact ⟨_, rfl⟩

/-! ### Normal forms -/

theorem mem_mergeStars (member : text ∈ written) (notStars : text ≠ stars) :
    text ∈ mergeStars written := by
  fun_induction mergeStars written with
  | case1 => exact member
  | case2 => exact member
  | case3 a b rest same ih =>
    refine ih ((List.mem_cons.mp member).resolve_left ?_)
    rintro rfl
    exact notStars same.1
  | case4 a b rest apart ih =>
    rcases List.mem_cons.mp member with rfl | later
    · exact List.mem_cons_self
    · exact List.mem_cons_of_mem _ (ih later)

theorem mem_closed (member : text ∈ written) (some : text ≠ "") : text ∈ closed written := by
  unfold closed
  split
  · rename_i last
    have split := List.dropLast_append_getLast? "" last
    rw [← split] at member
    rcases List.mem_append.mp member with early | isLast
    · exact List.mem_append_left _ early
    · exact absurd (List.mem_singleton.mp isLast) some
  · exact member

/-- Names with open escapes stay in the normal form, and none is added. -/
theorem any_endsOpen_segments (written : List String) :
    (segments written).any (fun text => endsOpen text.toList) =
      written.any fun text => endsOpen text.toList := by
  obtain ⟨anchored, normal, -, kept, -⟩ := exists_anchored written
  rw [Bool.eq_iff_iff, List.any_eq_true, List.any_eq_true]
  constructor
  · rintro ⟨text, member, isOpen⟩
    rcases (segments_texts written).1 text member with old | rfl
    · exact ⟨text, old, isOpen⟩
    · cases isOpen
  · rintro ⟨text, member, isOpen⟩
    have some : text ≠ "" := by
      rintro rfl
      cases isOpen
    have notStars : text ≠ stars := by
      rintro rfl
      cases isOpen
    refine ⟨text, ?_, isOpen⟩
    rw [normal]
    exact mem_mergeStars (mem_closed (kept text member some) some) notStars

theorem segments_ne_nil (nonempty : written ≠ []) (different : written ≠ [""]) :
    segments written ≠ [] := by
  obtain ⟨anchored, normal, -, -, anchoredSome⟩ := exists_anchored written
  rw [normal]
  exact mergeStars_ne_nil (closed_ne_nil (anchoredSome nonempty different))

/-! ### Rejected lines -/

/-- Whether a line without sets and without blanks at its end is no pattern. -/
def breaks : List Char → Bool
  | '#' :: _ => false
  | '!' :: body => body.isEmpty || (Text.splitChars '/' body).any endsOpen
  | body => (Text.splitChars '/' body).any endsOpen

/-- What is left of a line without sets is no pattern when it is empty or has an open escape. -/
theorem exists_error_body_iff
    {body : List Char} (noSet : '[' ∉ body) (ignores : Bool) :
    (∃ fault, compileBody ignores body = .error fault) ↔
      (body.isEmpty || (Text.splitChars '/' body).any endsOpen) = true := by
  unfold compileBody
  dsimp only
  by_cases empty : body = []
  · subst empty
    exact ⟨fun _ => rfl, fun _ => ⟨.malformed, rfl⟩⟩
  · have normalSome : segments ((Text.splitChars '/' body).map String.ofList) ≠ [] :=
      segments_ne_nil (by simp [Text.splitChars_ne_nil]) (Text.splitChars_ne_empty empty)
    have opens : (segments ((Text.splitChars '/' body).map String.ofList)).any
        (fun text => endsOpen text.toList) = (Text.splitChars '/' body).any endsOpen := by
      rw [any_endsOpen_segments, List.any_map]
      simp [Function.comp_def]
    have free : ∀ text ∈ segments ((Text.splitChars '/' body).map String.ofList),
        '[' ∉ text.toList :=
      fun text member => (free_of_mem_segments noSet member).1
    obtain ⟨found, read⟩ := exists_readSegments free
    rw [opens] at read
    rw [if_neg (by simpa using normalSome), read, List.isEmpty_eq_false_iff.mpr empty,
      Bool.false_or]
    cases isOpen : (Text.splitChars '/' body).any endsOpen with
    | true => exact ⟨fun _ => rfl, fun _ => ⟨.malformed, rfl⟩⟩
    | false =>
      rw [isOpen] at read
      obtain ⟨pattern, expressed⟩ := exists_ofSegments
        (((Text.splitChars '/' body).map String.ofList).getLast? == some "")
        (simple_of_readSegments noSet read).1
      simp only [Bool.false_eq_true, if_false, bind, Except.bind, expressed, iff_false, not_exists]
      exact fun fault failed => by cases failed

/-- Exactly which lines without sets are no patterns. -/
theorem exists_error_iff {line : String} (noSet : '[' ∉ line.toList) :
    (∃ fault, compile line = .error fault) ↔ breaks (trimmed line.toList) = true := by
  have noSet : '[' ∉ trimmed line.toList :=
    fun member => noSet ((trimmed_begins line.toList).subset member)
  rcases compile_cases line with ⟨without, same⟩ | ⟨body, negated, same⟩ |
    ⟨nonempty, notRemark, positive, same⟩
  · have stays : breaks (trimmed line.toList) = false := by
      rcases without with empty | remark | lone
      · rw [empty]
        decide
      · obtain ⟨rest, starts⟩ := List.head?_eq_some_iff.mp remark
        rw [starts]
        rfl
      · rw [lone]
        decide
    rw [same, stays]
    constructor
    · rintro ⟨fault, ⟨⟩⟩
    · rintro ⟨⟩
  · rw [negated] at noSet ⊢
    rw [same]
    exact exists_error_body_iff (fun member => noSet (List.mem_cons_of_mem _ member)) false
  · have reads : breaks (trimmed line.toList) =
        (Text.splitChars '/' (trimmed line.toList)).any endsOpen := by
      rw [breaks]
      · intro rest starts
        exact notRemark (by rw [starts]; rfl)
      · intro rest starts
        exact positive (by rw [starts]; rfl)
    rw [same]
    refine (exists_error_body_iff noSet true).trans ?_
    rw [reads, List.isEmpty_eq_false_iff.mpr nonempty, Bool.false_or]

end Matcher

/-!
## Compiling the ignore files of directories

Ignore files that are no text are left out, and all lines of the others become rules.  A single line
that is no pattern is enough to keep all of them from being compiled.  Blanks are taken from both
ends of a line before it is read, so a line that ends in an escaped blank is such a line: it loses
the blank and keeps the backslash.
-/

variable {tree : FileTree} {root base : Path} {searched resolved : List Path}

/-! ### What is compiled, and what keeps it from being compiled -/

/-- The lines of the ignore files of all scopes, seen from the root, in order. -/
def linesOf (tree : FileTree) (base : Path) (resolved : List Path) : List String :=
  (scopes base resolved).flatMap (linesIn tree base)

/-- The rules of the ignore files of all scopes, with what their lines are compiled to. -/
def setOf (tree : FileTree) (base : Path) (resolved : List Path) : RuleSet where
  root := base
  rules := (scopes base resolved).flatMap (rulesIn tree)
  patterns := linesOf tree base resolved ++ alwaysIgnored
  matchers := (linesOf tree base resolved ++ alwaysIgnored).filterMap Matcher.ofLine?

/-- What keeps the ignore files for some directories from being compiled: a directory that is no
path or lies behind a loop of links, an ignore file with too long a path, or the first line that is
no pattern. -/
inductive Hinders (tree : FileTree) (searched : List Path) (root : Path) : Failure → Prop where
  | nullCharacter {path : Path}
      (member : path ∈ root :: searched) (null : path.hasNull = true) :
      Hinders tree searched root (.nullCharacter path)
  | linkLoop {path : Path}
      (member : path ∈ root :: searched) (loops : tree.resolve? path = none) :
      Hinders tree searched root (.linkLoop path)
  | tooLong {base scope : Path} {resolved : List Path}
      (starts : StartsAt tree searched root base resolved)
      (member : scope ∈ scopes base resolved)
      (long : tree.lookup (scope.child fileName) = .error .tooLong) :
      Hinders tree searched root (.tooLong (scope.child fileName))
  | rejected {base : Path} {resolved : List Path} {before after : List String} {line : String}
      {fault : PatternFault}
      (starts : StartsAt tree searched root base resolved)
      (first : linesOf tree base resolved = before ++ line :: after)
      (sound : ∀ earlier ∈ before, ∃ matcher, Matcher.compile earlier = .ok matcher)
      (failed : Matcher.compile line = .error fault) :
      Hinders tree searched root (.ignorePattern fault)

theorem StartsAt.unique {otherBase : Path} {otherResolved : List Path}
    (starts : StartsAt tree searched root base resolved)
    (again : StartsAt tree searched root otherBase otherResolved) :
    base = otherBase ∧ resolved = otherResolved := by
  constructor
  · exact Option.some.inj (starts.known.symm.trans again.known)
  · exact starts.areResolved.unique again.areResolved

theorem StartsAt.known_of_mem (starts : StartsAt tree searched root base resolved)
    {path : Path} (member : path ∈ root :: searched) :
    path.hasNull = false ∧ tree.resolve? path ≠ none := by
  rcases List.mem_cons.mp member with rfl | inSearched
  · exact ⟨starts.noNull, by simp [starts.known]⟩
  · obtain ⟨found, noNull, known⟩ := starts.areResolved.exists_related inSearched
    exact ⟨noNull, by simp [known]⟩

/-! ### The outcome -/

theorem allPatterns_scopes :
    RuleSet.allPatterns ((scopes base resolved).flatMap (rulesIn tree)) base [] =
      linesOf tree base resolved ++ alwaysIgnored := by
  unfold RuleSet.allPatterns linesOf linesIn
  rw [List.append_nil, List.flatMap_assoc]

theorem exists_of_mem_alwaysIgnored {line : String} (member : line ∈ alwaysIgnored) :
    ∃ matcher, Matcher.compile line = .ok matcher := by
  have ran := Listwise.mapM_eq_ok_iff.mp mapM_alwaysIgnored
  exact ran.exists_related (by simpa [alwaysIgnored] using member)

theorem compile_scopes_eq_ok_iff {set : RuleSet} :
    RuleSet.compile ((scopes base resolved).flatMap (rulesIn tree)) base [] = .ok set ↔
      set = setOf tree base resolved ∧
        ∀ line ∈ linesOf tree base resolved, ∃ matcher, Matcher.compile line = .ok matcher := by
  rw [RuleSet.compile_eq_ok_iff, allPatterns_scopes, List.forall_mem_append]
  exact and_congr_right fun _ => and_iff_left fun _ => exists_of_mem_alwaysIgnored

/-- The patterns that hold in every project are sound, so the first line that is none is one of an
ignore file. -/
theorem exists_first_of_compile {fault : PatternFault}
    (failed : RuleSet.compile ((scopes base resolved).flatMap (rulesIn tree)) base [] =
      .error fault) :
    ∃ before line after, linesOf tree base resolved = before ++ line :: after ∧
      (∀ earlier ∈ before, ∃ matcher, Matcher.compile earlier = .ok matcher) ∧
        Matcher.compile line = .error fault := by
  obtain ⟨before, line, after, split, sound, lineFailed⟩ := RuleSet.compile_eq_error_iff.mp failed
  rw [allPatterns_scopes, List.append_eq_append_iff] at split
  rcases split with ⟨more, rfl, always⟩ | ⟨more, inLines, rest⟩
  · obtain ⟨matcher, compiled⟩ := exists_of_mem_alwaysIgnored
      (show line ∈ alwaysIgnored by rw [always]; simp)
    rw [lineFailed] at compiled
    cases compiled
  · cases more with
    | nil =>
      obtain ⟨matcher, compiled⟩ := exists_of_mem_alwaysIgnored
        (show line ∈ alwaysIgnored by rw [← List.nil_append alwaysIgnored, ← rest]; simp)
      rw [lineFailed] at compiled
      cases compiled
    | cons first more =>
      obtain ⟨rfl, -⟩ := List.cons.inj rest
      exact ⟨before, line, more, inLines, sound, lineFailed⟩

/-- Collecting ends with the rules of the tree unless something hinders it. -/
theorem ends_collect_setOf {σ : Type} {good : σ → Prop} (searched : List Path) (root : Path) :
    Task.Ends tree good
      (fun set => (∀ failure, ¬Hinders tree searched root failure) ∧
        ∃ base resolved, StartsAt tree searched root base resolved ∧
          set = setOf tree base resolved)
      (Hinders tree searched root) (collect searched root []) := by
  refine (ends_collectAll (fun path => .nullCharacter) (fun path => .linkLoop)
    (fun base resolved starts scope => .tooLong starts) ?_).imp ?_ fun _ => id
  · intro base resolved fault starts failed
    obtain ⟨before, line, after, first, sound, lineFailed⟩ := exists_first_of_compile failed
    exact .rejected starts first sound lineFailed
  · rintro set ⟨base, resolved, starts, reachable, compiled⟩
    obtain ⟨rfl, sound⟩ := compile_scopes_eq_ok_iff.mp compiled
    refine ⟨fun failure hinders => ?_, base, resolved, starts, rfl⟩
    cases hinders with
    | nullCharacter member null =>
      rw [(starts.known_of_mem member).1] at null
      cases null
    | linkLoop member loops => exact (starts.known_of_mem member).2 loops
    | tooLong again member long =>
      obtain ⟨rfl, rfl⟩ := starts.unique again
      exact reachable _ member long
    | @rejected base resolved before after line fault again first _ failed =>
      obtain ⟨rfl, rfl⟩ := starts.unique again
      obtain ⟨matcher, lineCompiled⟩ := sound line (by rw [first]; simp)
      rw [failed] at lineCompiled
      cases lineCompiled

/-! ### Lines that end in an escaped blank -/

namespace Matcher

theorem getLast?_of_endsOpen {text : List Char} (isOpen : endsOpen text = true) :
    text.getLast? = some '\\' := by
  fun_induction endsOpen text with
  | case1 => cases isOpen
  | case2 => rfl
  | case3 escaped rest ih =>
    rw [List.getLast?_cons, List.getLast?_cons, ih isOpen]
    rfl
  | case4 c rest _ _ ih =>
    rw [List.getLast?_cons, ih isOpen]
    rfl

theorem breaks_of_endsOpen
    {text : List Char} (isOpen : endsOpen text = true) (noComment : '#' ∉ text) :
    breaks text = true := by
  unfold breaks
  split
  · exact absurd List.mem_cons_self noComment
  · rename_i body
    rw [endsOpen_cons (by decide)] at isOpen
    rw [Bool.or_eq_true, List.any_eq_true]
    exact .inr (exists_piece_endsOpen body isOpen)
  · rw [List.any_eq_true]
    exact exists_piece_endsOpen text isOpen

/-- A line with an open escape at its end, and without sets, is no pattern. -/
theorem exists_error_of_endsOpen {line : String} (isOpen : endsOpen line.toList = true)
    (noSet : '[' ∉ line.toList) (noComment : '#' ∉ line.toList) :
    ∃ fault, compile line = .error fault := by
  have whole : trimmed line.toList = line.toList := by
    refine trimmed_of_last fun c last => ?_
    rw [getLast?_of_endsOpen isOpen, Option.mem_some_iff] at last
    subst last
    decide
  rw [exists_error_iff noSet, whole]
  exact breaks_of_endsOpen isOpen noComment

end Matcher

open Matcher (endsOpen)

/-- A pattern without sets and marks of comments that ends in an open escape. -/
structure IsBroken (pattern : String) : Prop where
  isOpen : endsOpen pattern.toList = true
  noSet : '[' ∉ pattern.toList
  noComment : '#' ∉ pattern.toList

variable {pattern : String}

theorem IsBroken.nonempty (broken : IsBroken pattern) : pattern.isEmpty = false := by
  rw [Bool.eq_false_iff, ne_eq, String.isEmpty_iff]
  rintro rfl
  cases broken.isOpen

/-- What is left of a broken pattern behind characters that escape nothing is broken too. -/
theorem IsBroken.dropChars {start : String} (broken : IsBroken pattern)
    (starts : Text.startsWith start pattern = true) (complete : endsOpen start.toList = false) :
    IsBroken (Text.dropChars start.toList.length pattern) := by
  obtain ⟨rest, whole⟩ := List.isPrefixOf_iff_prefix.mp starts
  have left : (Text.dropChars start.toList.length pattern).toList = rest := by
    rw [Text.dropChars, String.toList_ofList, ← whole, List.drop_left]
  obtain ⟨isOpen, noSet, noComment⟩ := broken
  rw [← whole] at isOpen noSet noComment
  rw [Matcher.endsOpen_append complete] at isOpen
  refine ⟨by rwa [left], ?_, ?_⟩
  · rw [left]
    exact fun member => noSet (List.mem_append_right _ member)
  · rw [left]
    exact fun member => noComment (List.mem_append_right _ member)

theorem IsBroken.withoutDot {pattern : String} (broken : IsBroken pattern) :
    IsBroken (withoutDot pattern) := by
  unfold Ignore.withoutDot
  split
  · rename_i starts
    exact broken.dropChars starts (by decide)
  · exact broken

theorem IsBroken.negated (broken : IsBroken pattern) : IsBroken ("!" ++ pattern) := by
  obtain ⟨isOpen, noSet, noComment⟩ := broken
  have text : ("!" ++ pattern).toList = '!' :: pattern.toList := by simp
  refine ⟨?_, ?_, ?_⟩
  · rw [text, Matcher.endsOpen_cons (by decide)]
    exact isOpen
  · rw [text, List.mem_cons, not_or]
    exact ⟨by decide, noSet⟩
  · rw [text, List.mem_cons, not_or]
    exact ⟨by decide, noComment⟩

/-- A broken pattern of an ignore file in the root stays broken when it is seen from the root. -/
theorem IsBroken.exists_line (broken : IsBroken pattern) (base : Path) :
    ∃ line ∈ Rule.normalize ⟨pattern, base⟩ base, IsBroken line := by
  unfold Rule.normalize
  rw [Path.relativeText_self]
  dsimp only
  cases negated : Text.startsWith "!" pattern with
  | true =>
    have left : IsBroken (Ignore.withoutDot (Text.dropChars 1 pattern)) :=
      (broken.dropChars negated (by decide)).withoutDot
    refine ⟨_, ?_, left.negated⟩
    rw [if_pos rfl, ← Ignore.withoutDot, left.nonempty]
    exact List.mem_singleton_self _
  | false =>
    have left := broken.withoutDot
    refine ⟨_, ?_, left⟩
    simp only [Bool.false_eq_true, if_false]
    rw [← Ignore.withoutDot, left.nonempty]
    simp [rebase]

/-- A line loses the blank that it ends with, also when the blank is escaped. -/
theorem strip_escapedBlank (body : List Char) :
    Text.strip (String.ofList (body ++ ['\\', ' '])) =
      String.ofList (body.dropWhile Text.isBlank ++ ['\\']) := by
  have start : (body ++ ['\\', ' ']).dropWhile Text.isBlank =
      body.dropWhile Text.isBlank ++ ['\\', ' '] := by
    rw [List.dropWhile_append]
    split
    · rename_i empty
      rw [List.isEmpty_iff.mp empty]
      decide
    · rfl
  have blank : Text.isBlank ' ' = true := by decide
  have notBlank : Text.isBlank '\\' = false := by decide
  rw [Text.strip, Text.trimChars, String.toList_ofList, start]
  congr 1
  simp [blank, notBlank]

/-- A line without sets and marks of comments that ends in an escaped blank is broken. -/
theorem isBroken_strip {body : List Char} (complete : endsOpen body = false)
    (noSet : '[' ∉ body) (noComment : '#' ∉ body) :
    IsBroken (Text.strip (String.ofList (body ++ ['\\', ' ']))) := by
  have suffix := List.dropWhile_suffix Text.isBlank (l := body)
  have stillComplete : endsOpen (body.dropWhile Text.isBlank) = false := by
    induction body with
    | nil => rfl
    | cons c rest ih =>
      rw [List.dropWhile_cons]
      split
      · rename_i blank
        have notBackslash : c ≠ '\\' := by
          rintro rfl
          exact absurd blank (by decide)
        rw [Matcher.endsOpen_cons notBackslash] at complete
        exact ih complete (fun member => noSet (List.mem_cons_of_mem _ member))
          (fun member => noComment (List.mem_cons_of_mem _ member))
          (List.dropWhile_suffix Text.isBlank)
      · exact complete
  rw [strip_escapedBlank]
  refine ⟨?_, ?_, ?_⟩
  · rw [String.toList_ofList, Matcher.endsOpen_append stillComplete]
    rfl
  · rw [String.toList_ofList, List.mem_append, not_or]
    exact ⟨fun member => noSet (suffix.subset member), by decide⟩
  · rw [String.toList_ofList, List.mem_append, not_or]
    exact ⟨fun member => noComment (suffix.subset member), by decide⟩

/-- A broken line in the ignore file of the root keeps all ignore files from being compiled. -/
theorem IsBroken.exists_hinders (starts : StartsAt tree searched root base resolved)
    {text line : List Char} (known : tree.text? (base.child fileName) = some text)
    (member : line ∈ Text.linesFrom [] text) (broken : IsBroken (Text.strip (String.ofList line))) :
    ∃ fault, Hinders tree searched root (.ignorePattern fault) := by
  have rule : Rule.mk (Text.strip (String.ofList line)) base ∈ rulesIn tree base := by
    have noComment : Text.startsWith "#" (Text.strip (String.ofList line)) = false := by
      refine Bool.eq_false_iff.mpr fun starts => broken.noComment ?_
      exact (List.isPrefixOf_iff_prefix.mp starts).subset (by decide)
    rw [rulesIn, known]
    refine List.mem_filterMap.mpr ⟨_, List.mem_map.mpr ⟨line, member, rfl⟩, ?_⟩
    rw [broken.nonempty, noComment]
    rfl
  have scope : base ∈ scopes base resolved := by
    rw [scopes_eq_append, List.mem_append, List.mem_mergeSort, scopesBelow, List.mem_eraseDups]
    exact .inr List.mem_cons_self
  obtain ⟨pattern, inRule, patternBroken⟩ := broken.exists_line base
  have inLines : pattern ∈ linesOf tree base resolved :=
    List.mem_flatMap.mpr ⟨base, scope, List.mem_flatMap.mpr ⟨_, rule, inRule⟩⟩
  -- What hinders is the first line that fails, which may be another one.
  cases ran : (linesOf tree base resolved).mapM Matcher.compile with
  | error fault =>
    obtain ⟨before, first, after, split, sound, failed⟩ := Listwise.mapM_eq_error_iff.mp ran
    exact ⟨fault, .rejected starts split sound failed⟩
  | ok matchers =>
    obtain ⟨matcher, compiled⟩ := (Listwise.mapM_eq_ok_iff.mp ran).exists_related inLines
    obtain ⟨fault, failed⟩ := Matcher.exists_error_of_endsOpen patternBroken.isOpen
      patternBroken.noSet patternBroken.noComment
    rw [failed] at compiled
    cases compiled

/-- Compiling the ignore files that matter for some directories answers the rules of all lines of
those that are text, or it fails: at a directory that is no path or lies behind a loop of links, at
an ignore file with too long a path, or at the first line that is no pattern.  It answers exactly
when there is nothing of this kind.  A line of the root's own ignore file that ends in an escaped
blank, and has no sets and no marks of comments, is always of this kind. -/
theorem compiles_unless_hindered (tree : FileTree) (searched : List Path) (root : Path) :
    (∀ {σ : Type} (journal : Journal σ),
      (∃ base resolved, StartsAt tree searched root base resolved ∧
        (collect searched root [] tree journal).1 = .ok (setOf tree base resolved)) ∨
      ∃ failure, Hinders tree searched root failure ∧
        (collect searched root [] tree journal).1 = .error failure) ∧
    (∀ {σ : Type} (journal : Journal σ),
      (∃ set, (collect searched root [] tree journal).1 = .ok set) ↔
        ∀ failure, ¬Hinders tree searched root failure) ∧
    ∀ base resolved text body, StartsAt tree searched root base resolved →
      tree.text? (base.child fileName) = some text →
      body ++ ['\\', ' '] ∈ Text.linesFrom [] text →
      endsOpen body = false → '[' ∉ body → '#' ∉ body →
        ∃ fault, Hinders tree searched root (.ignorePattern fault) := by
  have ends : ∀ {σ : Type}, Task.Ends tree (fun _ : σ => True) _ _ (collect searched root []) :=
    ends_collect_setOf searched root
  refine ⟨fun {σ} journal => ?_, fun {σ} journal => ⟨?_, fun free => ?_⟩, ?_⟩
  · obtain ⟨outcome, after, ran, ofOne, -⟩ := ends journal trivial
    rw [ran]
    cases ofOne with
    | ok ofKind =>
      obtain ⟨-, base, resolved, starts, rfl⟩ := ofKind
      exact .inl ⟨base, resolved, starts, rfl⟩
    | error hinders => exact .inr ⟨_, hinders, rfl⟩
  · rintro ⟨set, answered⟩
    exact (ends.kind_of_answer trivial answered).1
  · obtain ⟨set, answered, -⟩ := ends.exists_answer free trivial
    exact ⟨set, answered⟩
  · intro base resolved text body starts known member complete noSet noComment
    exact (isBroken_strip complete noSet noComment).exists_hinders starts known member

/-! ### A name that ends in a blank -/

/-- A file tree with a file and an ignore file at its top. -/
def ignoringTree (text : String) : FileTree :=
  ⟨.directory [(fileName, .file text.toUTF8 none), ("a.md", .file .empty none)], []⟩

theorem startsAt_ignoringTree (text : String) :
    StartsAt (ignoringTree text) [.ofRoot []] (.ofRoot []) (.ofRoot []) [.ofRoot []] :=
  ⟨rfl, rfl, .cons ⟨rfl, rfl⟩ .nil⟩

/-- Ignore files are not always compiled: an escaped blank at the end of a line is enough. -/
theorem escaped_blank_not_compiled :
    ¬∀ (tree : FileTree) (searched : List Path) (root base : Path) (resolved : List Path),
      StartsAt tree searched root base resolved →
        ∃ set, (collect searched root [] tree (Journal.mk () [])).1 = .ok set := by
  intro always
  obtain ⟨set, answered⟩ := always _ _ _ _ _ (startsAt_ignoringTree "foo\\ \n")
  have none : (collect [.ofRoot []] (.ofRoot []) [] (ignoringTree "foo\\ \n")
      (Journal.mk () [])).1.toOption.isNone = true := by
    decide +kernel
  rw [answered] at none
  cases none

theorem escaped_blank_hinders :
    ∃ failure, Hinders (ignoringTree "foo\\ \n") [.ofRoot []] (.ofRoot []) failure ∧
      (collect [.ofRoot []] (.ofRoot []) [] (ignoringTree "foo\\ \n") (Journal.mk () [])).1 =
        .error failure := by
  obtain ⟨outcome, answers_iff, lines⟩ :=
    compiles_unless_hindered (ignoringTree "foo\\ \n") [.ofRoot []] (.ofRoot [])
  obtain ⟨fault, hinders⟩ := lines (.ofRoot []) [.ofRoot []] "foo\\ \n".toList "foo".toList
    (startsAt_ignoringTree _) (by decide +kernel) (by decide) (by decide) (by decide) (by decide)
  rcases outcome (Journal.mk () []) with ⟨base, resolved, -, answered⟩ | failed
  · exact absurd hinders ((answers_iff (Journal.mk () [])).mp ⟨_, answered⟩ _)
  · exact failed

end Ignore
end ModuleAtlas
