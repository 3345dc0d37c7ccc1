import ModuleAtlas.Ignore.RuleSet
import ModuleAtlas.Proofs.FileTree.Names
import ModuleAtlas.Proofs.Ignore.Anchored

/-!
# Rules of one directory

A rule that stands in a directory below the root acts on this directory and nowhere else, and a rule
that is a name acts in all of it.  This rests on the names that lead to the directory: they are
written into the pattern as they are, so they must mean themselves there, and they must not look
like the way to a directory above the root.
-/

namespace ModuleAtlas
namespace Ignore

/-! ## Decisions of lines -/

namespace Matcher

/-- The lines that match a path: whether they ignore it, and how they match. -/
def hits (path : String) (matchers : List Matcher) : List (Bool × Strength) :=
  matchers.filterMap fun matcher =>
    (matcher.strength? path).map fun strength => (matcher.ignores, strength)

/-- The last line that matches a path itself decides, and if there is none, the last one that
matches it at all. -/
theorem verdict?_eq (matchers : List Matcher) (path : String) :
    verdict? matchers path =
      (((hits path matchers).filter fun entry => entry.2 == .itself).getLast?.map (·.1)).or
        ((hits path matchers).getLast?.map (·.1)) := by
  unfold verdict? verdictBy? itselfFirst hits
  split
  · rename_i entry itself
    rw [itself, Option.map_some, Option.some_or]
  · rename_i none
    rw [none, Option.map_none, Option.none_or]

end Matcher

/-- Lines that all ignore what they match ignore a path exactly when one of them matches it. -/
theorem Matcher.verdict?_getD_iff
    {matchers : List Matcher} (ignoring : ∀ matcher ∈ matchers, matcher.ignores = true)
    {path : String} :
    (verdict? matchers path).getD false = true ↔
      ∃ matcher ∈ matchers, (matcher.strength? path).isSome = true := by
  have allIgnore : ∀ entry ∈ hits path matchers, entry.1 = true := by
    intro entry member
    obtain ⟨matcher, matcherMember, known⟩ := List.mem_filterMap.mp member
    obtain ⟨strength, -, rfl⟩ := Option.map_eq_some_iff.mp known
    exact ignoring matcher matcherMember
  have decided : (verdict? matchers path).getD false = true ↔ hits path matchers ≠ [] := by
    rw [verdict?_eq]
    cases itself : ((hits path matchers).filter fun entry => entry.2 == .itself).getLast? with
    | some entry =>
      have inFound := List.mem_of_mem_filter (List.mem_of_getLast? itself)
      rw [Option.map_some, Option.some_or, Option.getD_some, allIgnore entry inFound]
      exact ⟨fun _ => List.ne_nil_of_mem inFound, fun _ => rfl⟩
    | none =>
      rw [Option.map_none, Option.none_or]
      cases last : (hits path matchers).getLast? with
      | none => simp [List.getLast?_eq_none_iff.mp last]
      | some entry =>
        have inFound := List.mem_of_getLast? last
        rw [Option.map_some, Option.getD_some, allIgnore entry inFound]
        exact ⟨fun _ => List.ne_nil_of_mem inFound, fun _ => rfl⟩
  rw [decided]
  constructor
  · intro some
    obtain ⟨entry, member⟩ := List.exists_mem_of_ne_nil _ some
    obtain ⟨matcher, matcherMember, known⟩ := List.mem_filterMap.mp member
    obtain ⟨strength, isStrength, -⟩ := Option.map_eq_some_iff.mp known
    exact ⟨matcher, matcherMember, Option.isSome_iff_exists.mpr ⟨strength, isStrength⟩⟩
  · rintro ⟨matcher, member, isSome⟩
    obtain ⟨strength, known⟩ := Option.isSome_iff_exists.mp isSome
    exact List.ne_nil_of_mem (List.mem_filterMap.mpr ⟨matcher, member, by rw [known]; rfl⟩)

/-! ## Ways from a root -/

/-- The way to what lies below a root is the names behind it. -/
theorem relativeText_append {root way : List String} (nonempty : way ≠ []) :
    Path.relativeText root (root ++ way) = Text.join "/" way := by
  have steps : Path.stepsBetween root (root ++ way) = way := by
    simp [Path.stepsBetween, Path.dropCommon_append_self]
  unfold Path.relativeText
  rw [steps]
  split
  · exact absurd rfl nonempty
  · rfl

variable {way : List String} {root path : Path}

/-- A way down is no dot and does not start with a step up. -/
theorem down_of_plain
    (nonempty : way ≠ []) (plain : ∀ name ∈ way, FileTree.IsPlain name)
    (free : ∀ name ∈ way, Text.IsFreeOf '/' name) :
    (Text.join "/" way == "." || Text.join "/" way == ".." ||
      Text.startsWith "../" (Text.join "/" way)) = false := by
  obtain ⟨first, others, rfl⟩ := List.exists_cons_of_ne_nil nonempty
  have split : Text.split '/' (Text.join "/" (first :: others)) = first :: others :=
    Text.split_join nonempty free
  obtain ⟨notUp, kept⟩ := plain first List.mem_cons_self
  have notDot : Text.join "/" (first :: others) ≠ "." := by
    intro dot
    rw [dot] at split
    obtain rfl : "." = first := (List.cons.inj split).1
    exact absurd kept (by decide)
  have inside := Path.leavesUp_iff.not.mpr fun up : (Text.split '/' _).head? = _ => by
    rw [split] at up
    exact notUp (Option.some.inj up)
  simpa [notDot] using inside

/-! ## Rule sets -/

/-- The lines of the patterns that hold in every project. -/
def alwaysMatchers : List Matcher :=
  (alwaysIgnored.filterMap fun line => (Matcher.compile line).toOption).filterMap id

theorem mapM_alwaysIgnored :
    (alwaysIgnored.filter (!·.isEmpty)).mapM Matcher.compile = .ok (alwaysMatchers.map some) := by
  decide +kernel

theorem ignores_of_mem_alwaysMatchers : ∀ matcher ∈ alwaysMatchers, matcher.ignores = true := by
  decide +kernel

theorem filterMap_id_map_some {α : Type} (values : List α) :
    (values.map some).filterMap id = values := by
  simp [List.filterMap_map]

theorem compile_of_allPatterns {rules : List Rule} {extra : List String}
    (lines : RuleSet.allPatterns rules root extra = alwaysIgnored) :
    RuleSet.compile rules root extra = .ok ⟨root, rules, alwaysIgnored, alwaysMatchers⟩ := by
  unfold RuleSet.compile
  rw [lines]
  dsimp only
  rw [mapM_alwaysIgnored]
  simp only [bind, Except.bind, pure, Except.pure, filterMap_id_map_some]

theorem compile_nil (root : Path) :
    RuleSet.compile [] root [] = .ok ⟨root, [], alwaysIgnored, alwaysMatchers⟩ :=
  compile_of_allPatterns rfl

/-- A rule that comes to one pattern adds what this pattern is compiled to. -/
theorem compile_single
    {rule : Rule} {line : String} (normal : rule.normalize root = [line])
    (nonempty : line ≠ "") :
    RuleSet.compile [rule] root [] = (Matcher.compile line).map fun matcher =>
      ⟨root, [rule], line :: alwaysIgnored, matcher.toList ++ alwaysMatchers⟩ := by
  have lines : RuleSet.allPatterns [rule] root [] = line :: alwaysIgnored := by
    simp [RuleSet.allPatterns, normal]
  have kept : (line :: alwaysIgnored).filter (!·.isEmpty) =
      line :: alwaysIgnored.filter (!·.isEmpty) :=
    List.filter_cons_of_pos (by simpa using nonempty)
  unfold RuleSet.compile
  rw [lines]
  dsimp only
  rw [kept, List.mapM_cons, mapM_alwaysIgnored]
  cases Matcher.compile line with
  | error fault => rfl
  | ok matcher =>
    cases matcher with
    | none => rfl
    | some matcher => rfl

/-! ## Paths under a root -/

/-- The text that lines match against: the way, closed with a slash when it leads to a directory. -/
def subjectOf (way : List String) (isDirectory : Bool) : String :=
  if isDirectory then Text.join "/" way ++ "/" else Text.join "/" way

/-- A path strictly under a root, seen from it by names. -/
structure IsUnder (root path : Path) (way : List String) : Prop where
  names : Path.normalNames path.names = Path.normalNames root.names ++ way
  nonempty : way ≠ []
  free : ∀ name ∈ way, Text.IsFreeOf '/' name

theorem IsUnder.plain (under : IsUnder root path way) :
    ∀ name ∈ way, FileTree.IsPlain name := by
  intro name member
  have normal : name ∈ Path.normalNames path.names := by
    rw [under.names]
    exact List.mem_append_right _ member
  exact (FileTree.mem_normalFrom (by simp) normal).1

/-- A path under the root is decided on by the lines that match it, and by nothing else. -/
theorem IsUnder.ignoresBy_eq (under : IsUnder root path way)
    {set : RuleSet} (setRoot : set.root = root) (weigh : Matcher.Weighing) (isDirectory : Bool) :
    set.ignoresBy weigh path isDirectory =
      (weigh (Matcher.hits (subjectOf way isDirectory) set.matchers)).getD false := by
  have down := down_of_plain under.nonempty under.plain under.free
  unfold RuleSet.ignoresBy RuleSet.ignoresRelativeBy
  rw [setRoot, under.names, relativeText_append under.nonempty, down]
  rfl

/-- A path under the root is decided on by the lines, and by nothing else. -/
theorem IsUnder.ignores_eq (under : IsUnder root path way)
    {set : RuleSet} (setRoot : set.root = root) (isDirectory : Bool) :
    set.ignores path isDirectory =
      (Matcher.verdict? set.matchers (subjectOf way isDirectory)).getD false :=
  under.ignoresBy_eq setRoot Matcher.itselfFirst isDirectory

/-! ## Rules below the root -/

/-- A way whose names mean themselves in a pattern, and that looks neither like a comment or a
negation nor like a way up. -/
structure IsTame (way : List String) : Prop where
  usual : ∀ name ∈ way, ∀ c ∈ name.toList, c ≠ '*' ∧ c ≠ '?' ∧ c ≠ '[' ∧ c ≠ '\\'
  starts : Matcher.StartsPlainly way
  notUp : Text.startsWith ".." (Text.join "/" way) = false

/-- A pattern line without a dot and a slash in front. -/
def withoutDot (pattern : String) : String :=
  if Text.startsWith "./" pattern then Text.dropChars 2 pattern else pattern

/-- A directory below a root, seen from it. -/
structure LiesBelow (root directory : Path) (way : List String) : Prop where
  rootProper : root.IsProper
  proper : directory.IsProper
  names : directory.names = root.names ++ way
  nonempty : way ≠ []

section

variable {root directory : Path} {way : List String} {pattern : String}

section

variable (below : LiesBelow root directory way)

include below

theorem LiesBelow.plain :
    ∀ name ∈ way, FileTree.IsPlain name :=
  fun name member => below.proper.plain name (by rw [below.names]; simp [member])

theorem LiesBelow.free :
    ∀ name ∈ way, Text.IsFreeOf '/' name :=
  fun name member => below.proper.free name (by rw [below.names]; simp [member])

theorem LiesBelow.isUnder : IsUnder root directory way where
  names := by
    rw [FileTree.normalNames_of_plain below.rootProper.plain,
      FileTree.normalNames_of_plain below.proper.plain, below.names]
  nonempty := below.nonempty
  free := below.free

/-- The way to what lies below a root is what its names are joined to. -/
theorem LiesBelow.relativeText :
    Path.relativeText (Path.normalNames root.names) (Path.normalNames directory.names) =
      Text.join "/" way := by
  rw [below.isUnder.names, relativeText_append below.nonempty]

theorem LiesBelow.isLiteral (tame : IsTame way) :
    ∀ name ∈ way, Matcher.IsLiteral name := by
  intro name member
  refine ⟨?_, below.free name member, tame.usual name member⟩
  rintro rfl
  exact absurd (below.plain "" member).2 (by decide)

/-- A rule is written anew with the way from the root in front of it. -/
theorem normalize_below (tame : IsTame way) (positive : Text.startsWith "!" pattern = false) :
    Rule.normalize ⟨pattern, directory⟩ root =
      if (withoutDot pattern).isEmpty then []
      else if Text.startsWith "/" (withoutDot pattern) then
        [Text.join "/" way ++ withoutDot pattern]
      else [Text.join "/" way ++ "/**/" ++ withoutDot pattern] := by
  have notHere : (Text.join "/" way == ".") = false := by
    have down := down_of_plain below.nonempty below.plain below.free
    rw [Bool.or_eq_false_iff, Bool.or_eq_false_iff] at down
    exact down.1.1
  unfold Rule.normalize
  simp only [positive, Bool.false_eq_true, if_false, below.relativeText, rebase, notHere,
    tame.notUp, String.empty_append]
  rfl

end

variable {names : List String}

/-- What lies below a directory is ignored exactly when one of the lines matches the way to it. -/
theorem ignores_iff_of_isDirectory {set : RuleSet} (setRoot : set.root = root)
    (ignoring : ∀ matcher ∈ set.matchers, matcher.ignores = true)
    (below : LiesBelow root path names) {isDirectory : Bool} :
    set.ignores path isDirectory = true ↔
      ∃ matcher ∈ set.matchers,
        (matcher.strength? (subjectOf names isDirectory)).isSome = true := by
  rw [below.isUnder.ignores_eq setRoot]
  exact Matcher.verdict?_getD_iff ignoring

/-- A file below a directory is ignored exactly when one of the lines matches the way to it. -/
theorem ignores_iff {set : RuleSet} (setRoot : set.root = root)
    (ignoring : ∀ matcher ∈ set.matchers, matcher.ignores = true) {file : Path}
    (below : LiesBelow root file names) :
    set.ignores file false = true ↔
      ∃ matcher ∈ set.matchers, (matcher.strength? (Text.join "/" names)).isSome = true :=
  ignores_iff_of_isDirectory setRoot ignoring below

section

variable (below : LiesBelow root directory way) (tame : IsTame way)
  (positive : Text.startsWith "!" pattern = false)
  (placed : 1 < way.length ∨ Matcher.trimmed (withoutDot pattern).toList ≠ ['/'])

include below tame positive placed

/-- The pattern of a rule, its slashes in front apart, behind the directory that it stands in. -/
theorem exists_line :
    Rule.normalize ⟨pattern, directory⟩ root = [] ∨
      ∃ line tail, Rule.normalize ⟨pattern, directory⟩ root = [line] ∧ line ≠ "" ∧
        line.toList = (Text.join "/" way).toList ++ '/' :: tail ∧
          (1 < way.length ∨ Matcher.trimmed tail ≠ []) := by
  rw [normalize_below below tame positive]
  split
  · exact .inl rfl
  · right
    split
    · rename_i slashed
      obtain ⟨tail, bodyCons⟩ := List.isPrefixOf_iff_prefix.mp slashed
      have body : (withoutDot pattern).toList = '/' :: tail := bodyCons.symm
      have line : (Text.join "/" way ++ withoutDot pattern).toList =
          (Text.join "/" way).toList ++ '/' :: tail := by
        rw [String.toList_append, body]
      refine ⟨_, tail, rfl, ?_, line, placed.imp_right fun notSlash none => notSlash ?_⟩
      · intro empty
        rw [empty] at line
        simp at line
      · have appended := Matcher.trimmed_append [] tail
        rw [List.nil_append, none] at appended
        rw [body, appended]
        rfl
    · have line : (Text.join "/" way ++ "/**/" ++ withoutDot pattern).toList =
          (Text.join "/" way).toList ++
            '/' :: ('*' :: '*' :: '/' :: (withoutDot pattern).toList) := by
        simp
      refine ⟨_, _, rfl, ?_, line, .inr ?_⟩
      · intro empty
        rw [empty] at line
        simp at line
      · have appended := Matcher.trimmed_append ['*', '*'] (withoutDot pattern).toList
        rw [List.cons_append, List.singleton_append] at appended
        rw [appended]
        simp

/-- A rule set of one rule has the lines that it would have without the rule, and what the pattern
of the rule behind its directory is compiled to. -/
theorem exists_added
    {set : RuleSet} (compiled : RuleSet.compile [⟨pattern, directory⟩] root [] = .ok set) :
    set.root = root ∧ ∃ added, set.matchers = added ++ alwaysMatchers ∧ ∀ matcher ∈ added,
      ∃ line tail, line.toList = (Text.join "/" way).toList ++ '/' :: tail ∧
        (1 < way.length ∨ Matcher.trimmed tail ≠ []) ∧
          Matcher.compile line = .ok (some matcher) := by
  rcases exists_line below tame positive placed with
    none | ⟨line, tail, normal, lineSome, lineEqual, fixed⟩
  · rw [compile_of_allPatterns (by simp [RuleSet.allPatterns, none])] at compiled
    cases compiled
    exact ⟨rfl, [], rfl, by simp⟩
  · rw [compile_single normal lineSome] at compiled
    cases lineCompiled : Matcher.compile line with
    | error fault =>
      rw [lineCompiled] at compiled
      cases compiled
    | ok matcher =>
      rw [lineCompiled] at compiled
      cases compiled
      refine ⟨rfl, matcher.toList, rfl, fun found member => ⟨line, tail, lineEqual, fixed, ?_⟩⟩
      rw [lineCompiled, Option.mem_toList.mp member]

/-- What a rule of a directory adds to what is ignored lies below this directory. -/
theorem below_of_ignores {alone without : RuleSet}
    (compiled : RuleSet.compile [⟨pattern, directory⟩] root [] = .ok alone)
    (compiledWithout : RuleSet.compile [] root [] = .ok without) {file : Path}
    (fileBelow : LiesBelow root file names) (ignored : alone.ignores file false = true)
    (spared : without.ignores file false = false) : ∃ more, more ≠ [] ∧ names = way ++ more := by
  obtain ⟨aloneRoot, added, matchers, each⟩ := exists_added below tame positive placed compiled
  have literal := below.isLiteral tame
  have ignoring : ∀ matcher ∈ alone.matchers, matcher.ignores = true := by
    intro matcher member
    rw [matchers] at member
    rcases List.mem_append.mp member with isAdded | always
    · obtain ⟨line, tail, lineEqual, fixed, lineCompiled⟩ := each matcher isAdded
      obtain ⟨-, -, -, -, -, -, rfl⟩ := Matcher.exists_of_compile_way below.nonempty literal
        tame.starts lineEqual fixed lineCompiled
      rfl
    · exact ignores_of_mem_alwaysMatchers matcher always
  obtain ⟨matcher, member, matched⟩ := (ignores_iff aloneRoot ignoring fileBelow).mp ignored
  rw [matchers] at member
  rcases List.mem_append.mp member with isAdded | always
  · obtain ⟨line, tail, lineEqual, fixed, lineCompiled⟩ := each matcher isAdded
    obtain ⟨rest, whole⟩ := Matcher.prefix_of_strength? below.nonempty literal tame.starts lineEqual
      fixed lineCompiled matched
    have joined : Text.split '/' (Text.join "/" names) = names :=
      Text.split_join fileBelow.nonempty fileBelow.free
    have pieces := Text.split_join_append below.nonempty below.free rest
    rw [List.append_assoc, List.singleton_append] at whole
    rw [whole] at pieces
    refine ⟨(Text.splitChars '/' rest).map String.ofList, ?_, joined.symm.trans pieces⟩
    simpa using Text.splitChars_ne_nil '/' rest
  · rw [compile_nil] at compiledWithout
    cases compiledWithout
    have anyway : (RuleSet.mk root [] alwaysIgnored alwaysMatchers).ignores file false = true :=
      (ignores_iff rfl ignores_of_mem_alwaysMatchers fileBelow).mpr ⟨matcher, always, matched⟩
    rw [anyway] at spared
    cases spared

end

/-- A pattern that is a name and nothing else. -/
structure IsName (pattern : String) : Prop where
  isLiteral : Matcher.IsLiteral pattern
  stripped : ∀ c ∈ pattern.toList.getLast?, Text.isBlank c = false

/-- A rule that is a name acts everywhere below its directory. -/
theorem ignores_of_isName (below : LiesBelow root directory way) (tame : IsTame way)
    (positive : Text.startsWith "!" pattern = false) (isName : IsName pattern) :
    ∃ set, RuleSet.compile [⟨pattern, directory⟩] root [] = .ok set ∧
      ∀ file between, file.IsProper → file.names = directory.names ++ between ++ [pattern] →
        (∀ name ∈ between, '\n' ∉ name.toList) → set.ignores file false = true := by
  have noSlash : Text.startsWith "/" pattern = false := by
    refine Bool.eq_false_iff.mpr fun starts => isName.isLiteral.free ?_
    exact (List.isPrefixOf_iff_prefix.mp starts).subset (by decide)
  have noDot : Text.startsWith "./" pattern = false := by
    refine Bool.eq_false_iff.mpr fun starts => isName.isLiteral.free ?_
    exact (List.isPrefixOf_iff_prefix.mp starts).subset (by decide)
  have body : withoutDot pattern = pattern := by
    rw [withoutDot, if_neg (by simp [noDot])]
  have normal : Rule.normalize ⟨pattern, directory⟩ root =
      [Text.join "/" way ++ "/**/" ++ pattern] := by
    rw [normalize_below below tame positive, body,
      if_neg (by simpa using isName.isLiteral.nonempty), if_neg (by simp [noSlash])]
  have lineEqual : (Text.join "/" way ++ "/**/" ++ pattern).toList =
      (Text.join "/" way).toList ++ '/' :: ('*' :: '*' :: '/' :: pattern.toList) := by
    simp
  have lineSome : Text.join "/" way ++ "/**/" ++ pattern ≠ "" := by
    intro empty
    rw [empty] at lineEqual
    simp at lineEqual
  have lineCompiled := Matcher.compile_nameBelow below.nonempty (below.isLiteral tame) tame.starts
    isName.isLiteral isName.stripped lineEqual
  have compiled := compile_single normal lineSome
  rw [lineCompiled] at compiled
  refine ⟨_, compiled, fun file between proper names inLine => ?_⟩
  have fileBelow : LiesBelow root file (way ++ (between ++ [pattern])) :=
    ⟨below.rootProper, proper, by rw [names, below.names]; simp, by simp⟩
  have ignoring : ∀ matcher ∈ ([⟨true, Matcher.nameBelow (Text.join "/" way).toList
      pattern.toList⟩] : List Matcher) ++ alwaysMatchers, matcher.ignores = true := by
    simp only [List.forall_mem_append, List.forall_mem_singleton]
    exact ⟨trivial, ignores_of_mem_alwaysMatchers⟩
  have betweenSome : ∀ name ∈ between, name ≠ "" := by
    rintro name member rfl
    have plain := fileBelow.plain "" (by simp [member])
    exact absurd plain.2 (by decide)
  have text : (Text.join "/" (way ++ (between ++ [pattern]))).toList =
      (Text.join "/" way).toList ++
        ((between.flatMap fun other => '/' :: other.toList) ++ '/' :: pattern.toList) := by
    rw [Text.toList_join_append below.nonempty, List.flatMap_append]
    simp
  refine (ignores_iff rfl ignoring fileBelow).mpr ⟨_, List.mem_cons_self, ?_⟩
  have regular : (Matcher.nameBelow (Text.join "/" way).toList pattern.toList).isRegular = true :=
    Matcher.isRegular_way (Matcher.translate_nameBelow false pattern)
  rw [Matcher.isSome_strength?_iff regular, text]
  exact ⟨0, Nat.zero_le _, Matcher.reads_nameBelow betweenSome inLine⟩

/-- A rule that stands in a directory below the root and takes nothing back acts on what lies below
this directory and on nothing else, and a rule that is a name on all files of this name there.  The
names that lead to the directory must mean themselves in a pattern, and a slash alone must not stand
behind a single one of them. -/
theorem rule_acts_below (below : LiesBelow root directory way) (tame : IsTame way)
    (positive : Text.startsWith "!" pattern = false)
    (placed : 1 < way.length ∨ Matcher.trimmed (withoutDot pattern).toList ≠ ['/']) :
    (∀ alone without, RuleSet.compile [⟨pattern, directory⟩] root [] = .ok alone →
      RuleSet.compile [] root [] = .ok without → ∀ file names, LiesBelow root file names →
        alone.ignores file false = true → without.ignores file false = false →
          ∃ more, more ≠ [] ∧ file.names = directory.names ++ more) ∧
    (IsName pattern → ∃ set, RuleSet.compile [⟨pattern, directory⟩] root [] = .ok set ∧
      ∀ file between, file.IsProper → file.names = directory.names ++ between ++ [pattern] →
        (∀ name ∈ between, '\n' ∉ name.toList) → set.ignores file false = true) := by
  refine ⟨?_, ignores_of_isName below tame positive⟩
  intro alone without compiled compiledWithout file names fileBelow ignored spared
  obtain ⟨more, moreSome, namesEqual⟩ := below_of_ignores below tame positive placed compiled
    compiledWithout fileBelow ignored spared
  exact ⟨more, moreSome, by rw [fileBelow.names, namesEqual, below.names, List.append_assoc]⟩

theorem isProper_ofRoot
    (proper : (names.all fun name =>
      name != ".." && Path.isKept name && !name.toList.contains '/') = true) :
    (Path.ofRoot names).IsProper := by
  simp only [List.all_eq_true, Bool.and_eq_true, bne_iff_ne, Bool.not_eq_true',
    List.contains_eq_mem, decide_eq_false_iff_not] at proper
  exact ⟨rfl, fun name member => (proper name member).1, fun name member => (proper name member).2⟩

theorem name_acts_below :
    (LiesBelow (.ofRoot ["p"]) (.ofRoot ["p", "d"]) ["d"] ∧ IsTame ["d"]) ∧
      (∃ set, RuleSet.compile [⟨"n", .ofRoot ["p", "d"]⟩] (.ofRoot ["p"]) [] = .ok set ∧
        set.ignores (.ofRoot ["p", "d", "e", "n"]) false = true) := by
  have below : LiesBelow (.ofRoot ["p"]) (.ofRoot ["p", "d"]) ["d"] :=
    ⟨isProper_ofRoot (by decide), isProper_ofRoot (by decide), rfl, by simp⟩
  have starts : Matcher.StartsPlainly ["d"] := by
    intro c head
    cases head
    decide
  have free : Text.IsFreeOf '/' "n" := by
    unfold Text.IsFreeOf
    decide
  have tame : IsTame ["d"] := ⟨by simp, starts, by decide⟩
  have isName : IsName "n" := ⟨⟨by simp, free, by simp⟩, by simp [Text.isBlank]⟩
  have positive : Text.startsWith "!" "n" = false := by decide
  have placed : 1 < ["d"].length ∨ Matcher.trimmed (withoutDot "n").toList ≠ ['/'] := by decide
  obtain ⟨-, everywhere⟩ := rule_acts_below below tame positive placed
  obtain ⟨set, compiled, each⟩ := everywhere isName
  exact ⟨⟨below, tame⟩, set, compiled, each _ ["e"] (isProper_ofRoot (by decide)) rfl (by simp)⟩

/-- Two dots in front of a name make it look like a way up: its rules act on everything. -/
theorem dotted_rule_acts_outside :
    ((RuleSet.compile [⟨"n", .ofRoot ["p", "..d"]⟩] (.ofRoot ["p"]) []).toOption.map fun set =>
        set.ignores (.ofRoot ["p", "n"]) false) = some true ∧
      ((RuleSet.compile [] (.ofRoot ["p"]) []).toOption.map fun set =>
        set.ignores (.ofRoot ["p", "n"]) false) = some false ∧
      ¬["p", "..d"] <+: ["p", "n"] := by
  decide +kernel

end

end Ignore
end ModuleAtlas
