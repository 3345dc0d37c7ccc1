import ModuleAtlas.Proofs.Ignore.Persisting

/-!
# Which lines have the last word

The lines that hold in every project and the extra ones come after the rules of the project.  Where
a last match that excludes decides, this makes them final: no rule takes back what they match.  They
match what has one of the built-in names on the way to it, unless a line feed stands in a name
before that.

Where a match of the path itself goes before all matches through a directory, wherever they stand, a
rule can take back what later lines exclude through a directory only.
-/

namespace ModuleAtlas

namespace Ignore
namespace Matcher

open Regex (Pattern Cursor)
open Regex.Pattern (Reads)

/-! ## Names at any depth below the root -/

/-- What may stand in front of a name at any depth: nothing, or names in one line and a slash. -/
def IsFront (front : List Char) : Prop :=
  front = [] ∨ ∃ c way, front = (c :: way) ++ ['/'] ∧ '\n' ∉ c :: way

/-- The expression of a name at any depth, and of what comes behind it. -/
def nameAnywhere (name : List Char) (behind : Pattern) : Pattern :=
  Pattern.sequence (.anchor .textStart :: .loop (.append someText slash) 0 (some 1) .greedy ::
    ((name.map fun c => .one (.single c)) ++ [behind]))

/-- The end of a path, or a slash that marks a directory. -/
def markedEnd : Pattern := .either directoryMark (.anchor .lastLineEnd)

theorem isRegular_nameAnywhere
    {behind : Pattern} (regular : behind.isRegular = true) (name : List Char) :
    (nameAnywhere name behind).isRegular = true := by
  apply Regex.isRegular_sequence
  simp only [List.forall_mem_cons, List.forall_mem_append, List.forall_mem_map]
  exact ⟨rfl, rfl, fun _ _ => rfl, regular, nofun⟩

theorem anyButLineFeed_contains_iff {c : Char} :
    Regex.CharSet.anyButLineFeed.contains c = true ↔ c ≠ '\n' := by
  constructor
  · rintro contains rfl
    exact absurd contains (by decide)
  · intro different
    have apart : c.toNat ≠ ('\n').toNat := fun same => different (Char.toNat_inj.mp same)
    have outside : Regex.isBetween '\n' '\n' c = false := by
      simp only [Regex.isBetween, Bool.and_eq_false_iff, decide_eq_false_iff_not]
      omega
    simp [Regex.CharSet.contains, Regex.CharSet.anyButLineFeed, Regex.Atom.covers, outside]

theorem reads_someText_iff {subject : Array Char} {start finish : Cursor} :
    Reads subject someText start finish ↔
      ∃ c text, '\n' ∉ c :: text ∧ c :: text <+: subject.toList.drop start.position ∧
        finish = { start with position := start.position + (c :: text).length } := by
  constructor
  · intro reads
    obtain ⟨text, each, some, stands, rfl⟩ := Regex.exists_text_of_run reads
    obtain ⟨c, text, rfl⟩ := List.exists_cons_of_ne_nil (List.ne_nil_of_length_pos some)
    exact ⟨c, text, fun feed => anyButLineFeed_contains_iff.mp (each _ feed) rfl, stands, rfl⟩
  · rintro ⟨c, text, inLine, stands, rfl⟩
    exact reads_someText inLine stands

/-- What is read in front of a name. -/
theorem reads_front_iff {text : List Char} {start finish : Cursor} :
    Reads text.toArray (.loop (.append someText slash) 0 (some 1) .greedy) start finish ↔
      ∃ front, IsFront front ∧ front <+: text.drop start.position ∧
        finish = { start with position := start.position + front.length } := by
  have single : ∀ {cursor next : Cursor}, Reads text.toArray slash cursor next ↔
      ['/'] <+: text.drop cursor.position ∧
        next = { cursor with position := cursor.position + 1 } := by
    intro cursor next
    rw [slash, Regex.reads_single, Regex.cons_prefix_drop_iff]
    simp
  constructor
  · intro reads
    cases reads with
    | stop => exact ⟨[], .inl rfl, List.nil_prefix, rfl⟩
    | optional _ round rounds =>
      cases round with
      | append before after =>
        obtain ⟨c, way, inLine, stands, rfl⟩ := reads_someText_iff.mp before
        obtain ⟨closes, rfl⟩ := single.mp after
        refine ⟨c :: way ++ ['/'], .inr ⟨c, way, rfl, inLine⟩,
          Regex.append_prefix_drop_iff.mpr ⟨by simpa using stands, closes⟩, ?_⟩
        cases rounds with
        | stop => simp [Nat.add_assoc]
        | optional allowed => exact absurd rfl allowed
  · rintro ⟨front, rfl | ⟨c, way, rfl, inLine⟩, stands, rfl⟩
    · exact .stop
    · obtain ⟨way, closes⟩ := Regex.append_prefix_drop_iff.mp stands
      refine .optional (by simp) (.append
        (reads_someText_iff.mpr ⟨_, _, inLine, by simpa using way, rfl⟩)
        (single.mpr ⟨closes, rfl⟩)) ?_
      simpa [Nat.add_assoc] using Reads.stop

/-- Where a name at any depth is read. -/
theorem reads_nameAnywhere_iff {text name : List Char} {behind : Pattern} {start : Nat}
    {next : Cursor} :
    Reads text.toArray (nameAnywhere name behind) ⟨start, []⟩ next ↔
      start = 0 ∧ ∃ front, IsFront front ∧ front ++ name <+: text ∧
        Reads text.toArray behind ⟨(front ++ name).length, []⟩ next := by
  unfold nameAnywhere
  rw [Regex.reads_sequence_cons]
  constructor
  · rintro ⟨middle, atStart, others⟩
    cases atStart with
    | anchor holds =>
      obtain rfl : start = 0 := by simpa [Regex.Anchor.holds] using holds
      obtain ⟨cursor, ahead, others⟩ := Regex.reads_sequence_cons.mp others
      obtain ⟨front, isFront, frontStands, rfl⟩ := reads_front_iff.mp ahead
      obtain ⟨nameStands, reads⟩ := Regex.reads_literal_append.mp others
      refine ⟨rfl, front, isFront, ?_, ?_⟩
      · have both := Regex.append_prefix_drop_iff.mpr ⟨frontStands, nameStands⟩
        simpa using both
      · simpa [Pattern.sequence] using reads
  · rintro ⟨rfl, front, isFront, stands, reads⟩
    have both : front ++ name <+: text.drop 0 := stands
    obtain ⟨frontStands, nameStands⟩ := Regex.append_prefix_drop_iff.mp both
    refine ⟨⟨0, []⟩, .anchor rfl, Regex.reads_sequence_cons.mpr ⟨_,
      reads_front_iff.mpr ⟨front, isFront, frontStands, rfl⟩,
      Regex.reads_literal_append.mpr ⟨nameStands, ?_⟩⟩⟩
    simpa [Pattern.sequence] using reads

/-- A name at any depth, up to its end or to the slash behind it. -/
theorem reads_markedEnd {name front rest : List Char} (isFront : IsFront front)
    (closes : rest = [] ∨ ∃ more, rest = '/' :: more) :
    ∃ next, Reads (front ++ name ++ rest).toArray (nameAnywhere name markedEnd) ⟨0, []⟩ next := by
  have ending : ∃ next, Reads (front ++ name ++ rest).toArray markedEnd
      ⟨(front ++ name).length, []⟩ next := by
    rcases closes with rfl | ⟨more, rfl⟩
    · exact ⟨_, .eitherSecond (.anchor (by simp [Regex.Anchor.holds]))⟩
    · exact ⟨_, .eitherFirst (.group (Regex.reads_single.mpr ⟨by simp, rfl⟩))⟩
  obtain ⟨next, reads⟩ := ending
  exact ⟨next, reads_nameAnywhere_iff.mpr ⟨rfl, front, isFront, List.prefix_append _ _, reads⟩⟩

/-! ## Names on the way to a path -/

/-- The way to a name starts with a front, if the names before it are told in one line, and goes on
with a slash unless the name is the last one of a file. -/
theorem exists_front
    {before after : List String} {name : String} (nonempty : ∀ other ∈ before, other ≠ "")
    (inLine : ∀ other ∈ before, '\n' ∉ other.toList) (isDirectory : Bool) :
    ∃ front rest, IsFront front ∧
      (subjectOf (before ++ name :: after) isDirectory).toList = front ++ name.toList ++ rest ∧
        ((after = [] ∧ isDirectory = false) ∧ rest = [] ∨ ∃ more, rest = '/' :: more) := by
  have front : ∃ front, IsFront front ∧ (Text.join "/" (before ++ name :: after)).toList =
      front ++ name.toList ++ after.flatMap fun other => '/' :: other.toList := by
    cases before with
    | nil => exact ⟨[], .inl rfl, Text.toList_join_cons name after⟩
    | cons first others =>
      have firstSome : first.toList ≠ [] := by simpa using nonempty first List.mem_cons_self
      obtain ⟨c, rest, firstCons⟩ := List.exists_cons_of_ne_nil firstSome
      refine ⟨_, .inr ⟨c, rest ++ others.flatMap fun other => '/' :: other.toList, rfl, ?_⟩, ?_⟩
      · rw [← List.cons_append, ← firstCons, List.mem_append, not_or]
        refine ⟨inLine first List.mem_cons_self, fun member => ?_⟩
        obtain ⟨other, otherMember, found⟩ := List.mem_flatMap.mp member
        rcases List.mem_cons.mp found with impossible | inside
        · cases impossible
        · exact inLine other (List.mem_cons_of_mem _ otherMember) inside
      · rw [Text.toList_join_append (List.cons_ne_nil _ _), Text.toList_join_cons, firstCons]
        simp
  obtain ⟨front, isFront, joined⟩ := front
  cases isDirectory with
  | true =>
    refine ⟨front, (after.flatMap fun other => '/' :: other.toList) ++ ['/'], isFront, ?_,
      .inr ?_⟩
    · rw [subjectOf, if_pos rfl, String.toList_append, joined]
      simp
    · cases after with
      | nil => exact ⟨[], rfl⟩
      | cons next others => exact ⟨_, rfl⟩
  | false =>
    refine ⟨front, _, isFront, joined, ?_⟩
    cases after with
    | nil => exact .inl ⟨⟨rfl, rfl⟩, rfl⟩
    | cons next others => exact .inr ⟨_, rfl⟩

/-! ## The last word -/

/-- How a line matches a path, if it does: whether it ignores what it matches, and how. -/
def hit (path line : String) : Option (Bool × Strength) :=
  (ofLine? line).bind fun matcher =>
    (matcher.strength? path).map fun strength => (matcher.ignores, strength)

theorem hits_eq (path : String) (lines : List String) :
    hits path (lines.filterMap ofLine?) = lines.filterMap (hit path) := by
  unfold hits
  rw [List.filterMap_filterMap]
  rfl

/-- A rule for matches by which a last match that excludes decides, be it one through a directory.
Without matches there is no decision. -/
structure LetsLastExclude (weigh : Weighing) : Prop where
  undecided : weigh [] = none
  excluded : ∀ before strength, weigh (before ++ [(true, strength)]) = some true

/-- Where one of the last lines matches a path, and those of them that do ignore it, a last match
excludes the path. -/
theorem LetsLastExclude.excludes_of_last
    {weigh : Weighing} (final : LetsLastExclude weigh) {lines last : List String} {path : String}
    (some : last.filterMap (hit path) ≠ [])
    (ignoring : ∀ entry ∈ last.filterMap (hit path), entry.1 = true) :
    weigh (hits path ((lines ++ last).filterMap ofLine?)) = Option.some true := by
  have ended : last.filterMap (hit path) = (last.filterMap (hit path)).dropLast ++
      [(true, ((last.filterMap (hit path)).getLast some).2)] := by
    conv_lhs => rw [← List.dropLast_append_getLast some]
    rw [← ignoring _ (List.getLast_mem some)]
  rw [hits_eq, List.filterMap_append, ended, ← List.append_assoc]
  exact final.excluded _ _

/-- A rule for matches that goes through them in order. A match through a directory that takes back
does not change what a match of the path itself has decided; every other match decides anew. -/
def laterDirectory : Weighing := fun found =>
  (found.foldl step none).map (·.1)
where
  step (decided : Option (Bool × Strength)) (entry : Bool × Strength) :
      Option (Bool × Strength) :=
    match decided, entry with
    | some (_, .itself), (false, .throughDirectory) => decided
    | _, _ => some entry

theorem letsLastExclude_laterDirectory : LetsLastExclude laterDirectory where
  undecided := rfl
  excluded before strength := by
    have decidesAnew : ∀ decided, laterDirectory.step decided (true, strength) =
        some (true, strength) := by
      intro decided
      cases strength <;> rcases decided with _ | ⟨_, _ | _⟩ <;> rfl
    rw [laterDirectory, List.foldl_append, List.foldl_cons, decidesAnew]
    rfl

/-! ## Lines that are names -/

section

variable {before after : List String} {name line : String} (nonempty : ∀ other ∈ before, other ≠ "")
  (inLine : ∀ other ∈ before, '\n' ∉ other.toList)

include nonempty inLine

/-- A line that is a name matches what has the name on the way to it. -/
theorem exists_hit_of_name
    (compiled : ofLine? line = some ⟨true, nameAnywhere name.toList markedEnd⟩)
    (isDirectory : Bool) :
    ∃ strength, hit (subjectOf (before ++ name :: after) isDirectory) line =
      some (true, strength) := by
  obtain ⟨front, rest, isFront, whole, closes⟩ := exists_front nonempty inLine isDirectory
  have regular : (nameAnywhere name.toList markedEnd).isRegular = true :=
    isRegular_nameAnywhere rfl _
  have matched : ((⟨true, nameAnywhere name.toList markedEnd⟩ : Matcher).strength?
      (subjectOf (before ++ name :: after) isDirectory)).isSome = true := by
    rw [isSome_strength?_iff regular, whole]
    exact ⟨0, Nat.zero_le _, reads_markedEnd isFront (closes.imp_left And.right)⟩
  obtain ⟨strength, known⟩ := Option.isSome_iff_exists.mp matched
  exact ⟨strength, by rw [hit, compiled, Option.bind_some, known, Option.map_some]⟩

end

end Matcher

/-! ## What cannot be taken back -/

open Matcher (hit ofLine?)

/-- A way with a name on it, the names before it told in one line. -/
def Passes (name : String) (way : List String) : Prop :=
  ∃ before after, way = before ++ name :: after ∧ ∀ other ∈ before, '\n' ∉ other.toList

section

variable {rules : List Rule} {root path : Path} {extra way : List String} {set : RuleSet}

/-- The lines after the rules of the project. -/
def lastLines (extra : List String) : List String := alwaysIgnored ++ extra

theorem allPatterns_eq (rules : List Rule) (root : Path) (extra : List String) :
    RuleSet.allPatterns rules root extra =
      rules.flatMap (fun rule => rule.normalize root) ++ lastLines extra :=
  List.append_assoc _ _ _

/-- The last lines ignore all that they match. -/
theorem ignoring_lastLines
    (positive : ∀ line ∈ extra, line.toList.head? ≠ some '!') (subject : String) :
    ∀ entry ∈ (lastLines extra).filterMap (hit subject), entry.1 = true := by
  have always : ∀ line ∈ alwaysIgnored, line.toList.head? ≠ some '!' := by decide
  intro entry member
  obtain ⟨line, lineMember, matched⟩ := List.mem_filterMap.mp member
  obtain ⟨matcher, known, matched⟩ := Option.bind_eq_some_iff.mp matched
  obtain ⟨strength, -, rfl⟩ := Option.map_eq_some_iff.mp matched
  refine ignores_of_positive (?_ : line.toList.head? ≠ some '!') ?_
  · exact (List.mem_append.mp lineMember).elim (always line) (positive line)
  · unfold ofLine? at known
    cases outcome : Matcher.compile line with
    | error fault =>
      rw [outcome] at known
      cases known
    | ok found =>
      rw [outcome] at known
      exact congrArg Except.ok known

/-- Without rules only what one of the last lines matches is ignored. -/
theorem matched_of_ignores {weigh : Matcher.Weighing} (undecided : weigh [] = none)
    (compiled : RuleSet.compile [] root extra = .ok set) (under : IsUnder root path way)
    {isDirectory : Bool} (ignored : set.ignoresBy weigh path isDirectory = true) :
    (lastLines extra).filterMap (hit (subjectOf way isDirectory)) ≠ [] := by
  obtain ⟨setRoot, matchers, -⟩ := RuleSet.matchers_of_compile compiled
  have lines : RuleSet.allPatterns [] root extra = lastLines extra := rfl
  intro none
  rw [under.ignoresBy_eq setRoot, matchers, lines, Matcher.hits_eq, none, undecided] at ignored
  cases ignored

/-! ### Built-in names -/

theorem ofLine?_git :
    ofLine? ".git" = some ⟨true, Matcher.nameAnywhere ".git".toList Matcher.markedEnd⟩ := by
  decide +kernel

theorem ofLine?_cache :
    ofLine? ".eslintcache" =
      some ⟨true, Matcher.nameAnywhere ".eslintcache".toList Matcher.markedEnd⟩ := by
  decide +kernel

theorem mem_lastLines {line : String} (always : line ∈ alwaysIgnored) : line ∈ lastLines extra :=
  List.mem_append_left _ always

theorem IsUnder.ne_empty (under : IsUnder root path way) : ∀ name ∈ way, name ≠ "" := by
  rintro _ member rfl
  exact absurd (under.plain "" member).2 (by decide)

/-- A line that is a name matches what has the name on the way to it. -/
theorem matched_of_passes
    (under : IsUnder root path way) {name line : String} (passes : Passes name way)
    (always : line ∈ alwaysIgnored)
    (known : ofLine? line = some ⟨true, Matcher.nameAnywhere name.toList Matcher.markedEnd⟩)
    (isDirectory : Bool) :
    (lastLines extra).filterMap (hit (subjectOf way isDirectory)) ≠ [] := by
  obtain ⟨before, after, rfl, inLine⟩ := passes
  obtain ⟨strength, matched⟩ : ∃ strength,
      hit (subjectOf (before ++ name :: after) isDirectory) line = some (true, strength) :=
    Matcher.exists_hit_of_name
      (fun other member => under.ne_empty other (List.mem_append_left _ member)) inLine known
      isDirectory
  exact List.ne_nil_of_mem (List.mem_filterMap.mpr ⟨line, mem_lastLines always, matched⟩)

/-- What has a built-in name on the way to it, or is ignored without rules, one of the last lines
matches. -/
theorem matched_of_excluded {weigh : Matcher.Weighing} (undecided : weigh [] = none)
    (under : IsUnder root path way) {isDirectory : Bool}
    (excluded : Passes ".git" way ∨ Passes ".eslintcache" way ∨
      ∃ alone, RuleSet.compile [] root extra = .ok alone ∧
        alone.ignoresBy weigh path isDirectory = true) :
    (lastLines extra).filterMap (hit (subjectOf way isDirectory)) ≠ [] := by
  rcases excluded with passes | passes | ⟨alone, aloneCompiled, ignored⟩
  · exact matched_of_passes under passes (by decide) ofLine?_git isDirectory
  · exact matched_of_passes under passes (by decide) ofLine?_cache isDirectory
  · exact matched_of_ignores undecided aloneCompiled under ignored

/-- Built-in and extra lines are final where a last match that excludes decides.  What has the
directory of the version control system or the cache on the way to it is ignored, and so is what the
extra lines ignore on their own, whatever the rules say. -/
theorem excluded_for_good {weigh : Matcher.Weighing} (last : Matcher.LetsLastExclude weigh)
    (compiled : RuleSet.compile rules root extra = .ok set)
    (positive : ∀ line ∈ extra, line.toList.head? ≠ some '!')
    (under : IsUnder root path way) (isDirectory : Bool)
    (excluded : Passes ".git" way ∨ Passes ".eslintcache" way ∨
      ∃ alone, RuleSet.compile [] root extra = .ok alone ∧
        alone.ignoresBy weigh path isDirectory = true) :
    set.ignoresBy weigh path isDirectory = true := by
  obtain ⟨setRoot, matchers, -⟩ := RuleSet.matchers_of_compile compiled
  have matched := matched_of_excluded last.undecided under excluded
  rw [under.ignoresBy_eq setRoot, matchers, allPatterns_eq,
    last.excludes_of_last matched (ignoring_lastLines positive _), Option.getD_some]

end

/-- A project with a rule that takes back `keep.ts`. -/
def keepingRules : List Rule := [⟨"!keep.ts", .ofRoot ["p"]⟩]

/-- With an extra line for the directory `build`, the rule takes back no file in it where a last
match that excludes decides. -/
theorem rule_in_vain :
    Matcher.LetsLastExclude Matcher.laterDirectory ∧
      (∀ line ∈ ["build"], line.toList.head? ≠ some '!') ∧
      IsUnder (.ofRoot ["p"]) (.ofRoot ["p", "build", "keep.ts"]) ["build", "keep.ts"] ∧
      ∃ set, RuleSet.compile keepingRules (.ofRoot ["p"]) ["build"] = .ok set ∧
        (∃ alone, RuleSet.compile [] (.ofRoot ["p"]) ["build"] = .ok alone ∧
          alone.ignoresBy Matcher.laterDirectory (.ofRoot ["p", "build", "keep.ts"]) false =
            true) ∧
        set.ignoresBy Matcher.laterDirectory (.ofRoot ["p", "build", "keep.ts"]) false = true := by
  have free : ∀ name ∈ ["build", "keep.ts"], Text.IsFreeOf '/' name := by
    unfold Text.IsFreeOf
    decide
  have positive : ∀ line ∈ ["build"], line.toList.head? ≠ some '!' := by decide
  have under : IsUnder (.ofRoot ["p"]) (.ofRoot ["p", "build", "keep.ts"]) ["build", "keep.ts"] :=
    ⟨by decide, by simp, free⟩
  have compiles :
      (RuleSet.compile keepingRules (.ofRoot ["p"]) ["build"]).toOption.isSome = true := by
    decide +kernel
  obtain ⟨set, known⟩ := Option.isSome_iff_exists.mp compiles
  have ignored : (RuleSet.compile [] (.ofRoot ["p"]) ["build"]).toOption.any (fun set =>
      set.ignoresBy Matcher.laterDirectory (.ofRoot ["p", "build", "keep.ts"]) false) = true := by
    decide +kernel
  obtain ⟨alone, aloneKnown, ignored⟩ := (Option.any_eq_true _ _).mp ignored
  have compiled := eq_ok_of_toOption known
  have aloneCompiled := eq_ok_of_toOption aloneKnown
  refine ⟨Matcher.letsLastExclude_laterDirectory, positive, under, set, compiled,
    ⟨alone, aloneCompiled, ignored⟩, ?_⟩
  exact excluded_for_good Matcher.letsLastExclude_laterDirectory compiled positive under false
    (.inr (.inr ⟨alone, aloneCompiled, ignored⟩))

/-- A line feed in the name of a directory hides what is below it from the built-in lines, by either
rule for matches. -/
theorem line_feed_hides_git :
    (RuleSet.compile [] (.ofRoot ["p"]) []).toOption.map (fun set =>
      [Matcher.laterDirectory, Matcher.itselfFirst].map fun weigh =>
        set.ignoresBy weigh (.ofRoot ["p", "a\nb", ".git"]) false) = some [false, false] := by
  decide +kernel

-- Where a match of the path itself goes first, the rule takes the file back, and another one what
-- is in the cache.
example :
    (RuleSet.compile keepingRules (.ofRoot ["p"]) ["build"]).toOption.map (fun set =>
        set.ignores (.ofRoot ["p", "build", "keep.ts"]) false) = some false ∧
      (RuleSet.compile [⟨"!.eslintcache/a", .ofRoot ["p"]⟩] (.ofRoot ["p"]) []).toOption.map
        (fun set => set.ignores (.ofRoot ["p", ".eslintcache", "a"]) false) = some false := by
  decide +kernel

end Ignore
end ModuleAtlas
