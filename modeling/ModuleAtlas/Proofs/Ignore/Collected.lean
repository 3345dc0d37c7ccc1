import ModuleAtlas.Proofs.FileTree.Unlinked
import ModuleAtlas.Proofs.Ignore.Scoped
import ModuleAtlas.Proofs.Ignore.Scopes
import ModuleAtlas.Proofs.Task.Ending

/-!
# Collected ignore rules

What is collected for a directory are the rules of the ignore files in its scopes, the directories
from the top of the file system to the root and on to it.  Which scopes there are beyond those of
another directory does not matter for a file that no rule in them matches: only lines that match
take part in a decision, and the scopes of both directories come in the same order.
-/

namespace ModuleAtlas

/-- Lists that differ only in elements without images have the same images when they are sorted. -/
theorem flatMap_mergeSort_eq
    {α β : Type} {le : α → α → Bool} {first second : List α} {image : α → List β}
    (firstNodup : first.Nodup) (secondNodup : second.Nodup)
    (transitive : ∀ a b c, le a b = true → le b c = true → le a c = true)
    (total : ∀ a b, (le a b || le b a) = true)
    (antisymmetric : ∀ a ∈ first, ∀ b ∈ first, le a b = true → le b a = true → a = b)
    (silent : ∀ element, (element ∈ first ↔ element ∉ second) → image element = []) :
    (first.mergeSort le).flatMap image = (second.mergeSort le).flatMap image := by
  let counts := fun element => !(image element).isEmpty
  have filtered : ∀ elements : List α,
      elements.flatMap image = (elements.filter counts).flatMap image := by
    intro elements
    induction elements with
    | nil => rfl
    | cons element rest ih =>
      rw [List.flatMap_cons, ih]
      cases known : image element with
      | nil => rw [List.filter_cons_of_neg (by simp [counts, known]), List.nil_append]
      | cons value more =>
        rw [List.filter_cons_of_pos (by simp [counts, known]), List.flatMap_cons, known]
  have sorted : ∀ elements : List α,
      ((elements.mergeSort le).filter counts).Pairwise fun a b => le a b = true :=
    fun elements => (List.pairwise_mergeSort transitive total elements).filter counts
  have same : ∀ element, element ∈ first.filter counts ↔ element ∈ second.filter counts := by
    intro element
    simp only [List.mem_filter, and_congr_left_iff]
    intro counted
    have speaks : image element ≠ [] := by simpa [counts] using counted
    have both := mt (silent element) speaks
    tauto
  have permutes : ((first.mergeSort le).filter counts).Perm ((second.mergeSort le).filter counts) :=
    ((List.mergeSort_perm first le).filter counts).trans
      (((List.perm_ext_iff_of_nodup (firstNodup.filter counts)
        (secondNodup.filter counts)).mpr same).trans
          ((List.mergeSort_perm second le).filter counts).symm)
  rw [filtered (first.mergeSort le), filtered (second.mergeSort le)]
  congr 1
  refine permutes.eq_of_pairwise ?_ (sorted first) (sorted second)
  intro a b aMember bMember
  have inFirst : b ∈ first :=
    List.mem_of_mem_filter ((same b).mpr
      (((List.mergeSort_perm second le).filter counts).mem_iff.mp bMember))
  exact antisymmetric a (List.mem_mergeSort.mp (List.mem_of_mem_filter aMember)) b inFirst

namespace Ignore

variable {tree : FileTree} {root directory searched first second file : Path} {extra : List String}

/-! ## Lines -/

namespace Matcher

/-- What a line of a rule set is compiled to, if it has an effect. -/
def ofLine? (line : String) : Option Matcher :=
  (compile line).toOption.join

/-- Lines decide on a path by those that match it. -/
theorem verdict?_congr {matchers others : List Matcher} {path : String}
    (same : hits path matchers = hits path others) :
    verdict? matchers path = verdict? others path := by
  unfold hits at same
  unfold verdict? verdictBy?
  rw [same]

theorem compile_empty : compile "" = .ok none := by
  decide

/-- Whether a line is a pattern, or a comment, and does not match a path. -/
def spares (line path : String) : Bool :=
  match compile line with
  | .ok (some matcher) => (matcher.strength? path).isNone
  | .ok none => true
  | .error _ => false

theorem exists_of_spares {line path : String} (spared : spares line path = true) :
    ∃ matcher, compile line = .ok matcher ∧ ∀ found ∈ matcher, found.strength? path = none := by
  unfold spares at spared
  split at spared
  · rename_i matcher compiled
    refine ⟨_, compiled, ?_⟩
    rintro _ ⟨⟩
    exact Option.isNone_iff_eq_none.mp spared
  · rename_i compiled
    exact ⟨none, compiled, nofun⟩
  · cases spared

end Matcher

/-! ## Rule sets -/

namespace RuleSet

variable {rules : List Rule} {set : RuleSet}

theorem filterMap_id_of_listwise {lines : List String} {found : List (Option Matcher)}
    (compiled : Listwise (fun line matcher => Matcher.compile line = .ok matcher) lines found) :
    found.filterMap id = lines.filterMap Matcher.ofLine? := by
  induction compiled with
  | nil => rfl
  | @cons line matcher rest others head _ ih =>
    have known : Matcher.ofLine? line = matcher := by rw [Matcher.ofLine?, head]; rfl
    rw [List.filterMap_cons, List.filterMap_cons, ih, known]
    rfl

/-- Empty lines decide nothing about what lines are compiled to. -/
theorem mapM_filter_nonempty (lines : List String) :
    ((lines.filter (!·.isEmpty)).mapM Matcher.compile).map (·.filterMap id) =
      (lines.mapM Matcher.compile).map (·.filterMap id) := by
  induction lines with
  | nil => rfl
  | cons line rest ih =>
    have goesOn : ∀ (lines : List String) (matcher : Option Matcher),
        (do
          let others ← lines.mapM Matcher.compile
          pure (matcher :: others) : Except PatternFault (List (Option Matcher))).map
            (·.filterMap id) =
          ((lines.mapM Matcher.compile).map (·.filterMap id)).map (matcher.toList ++ ·) := by
      intro lines matcher
      cases lines.mapM Matcher.compile with
      | error fault => rfl
      | ok others => cases matcher <;> rfl
    by_cases empty : line = ""
    · subst empty
      rw [List.mapM_cons, Matcher.compile_empty]
      refine ih.trans ((goesOn rest none).trans ?_).symm
      cases rest.mapM Matcher.compile <;> rfl
    · rw [List.filter_cons_of_pos (by simpa using empty), List.mapM_cons, List.mapM_cons]
      cases Matcher.compile line with
      | error fault => rfl
      | ok matcher =>
        refine (goesOn _ matcher).trans (Eq.trans ?_ (goesOn rest matcher).symm)
        rw [ih]

/-- Rules are compiled by compiling their lines one after the other. -/
theorem compile_eq (rules : List Rule) (root : Path) (extra : List String) :
    compile rules root extra =
      (((allPatterns rules root extra).mapM Matcher.compile).map (·.filterMap id)).map
        fun matchers => ⟨root, rules, allPatterns rules root extra, matchers⟩ := by
  rw [← mapM_filter_nonempty]
  unfold compile
  dsimp only
  cases ((allPatterns rules root extra).filter (!·.isEmpty)).mapM Matcher.compile <;> rfl

/-- Rules are compiled exactly when each line is sound, to what the lines are compiled to. -/
theorem compile_eq_ok_iff :
    compile rules root extra = .ok set ↔
      set = ⟨root, rules, allPatterns rules root extra,
        (allPatterns rules root extra).filterMap Matcher.ofLine?⟩ ∧
        ∀ line ∈ allPatterns rules root extra, ∃ matcher, Matcher.compile line = .ok matcher := by
  rw [compile_eq]
  constructor
  · intro compiled
    cases ran : (allPatterns rules root extra).mapM Matcher.compile with
    | error fault =>
      rw [ran] at compiled
      cases compiled
    | ok found =>
      rw [ran] at compiled
      cases compiled
      have each := Listwise.mapM_eq_ok_iff.mp ran
      refine ⟨?_, fun line member => each.exists_related member⟩
      rw [← filterMap_id_of_listwise each]
  · rintro ⟨rfl, sound⟩
    cases ran : (allPatterns rules root extra).mapM Matcher.compile with
    | error fault =>
      obtain ⟨before, line, after, split, -, failed⟩ := Listwise.mapM_eq_error_iff.mp ran
      obtain ⟨matcher, compiled⟩ := sound line (by rw [split]; simp)
      rw [failed] at compiled
      cases compiled
    | ok found =>
      rw [← filterMap_id_of_listwise (Listwise.mapM_eq_ok_iff.mp ran)]
      rfl

/-- Rules are not compiled exactly when some line is no pattern, and the first one is told. -/
theorem compile_eq_error_iff {fault : PatternFault} :
    compile rules root extra = .error fault ↔
      ∃ before line after, allPatterns rules root extra = before ++ line :: after ∧
        (∀ earlier ∈ before, ∃ matcher, Matcher.compile earlier = .ok matcher) ∧
          Matcher.compile line = .error fault := by
  rw [compile_eq, ← Listwise.mapM_eq_error_iff]
  cases (allPatterns rules root extra).mapM Matcher.compile with
  | error other => exact ⟨fun failed => by cases failed; rfl, fun failed => by cases failed; rfl⟩
  | ok found =>
    constructor
    · rintro ⟨⟩
    · rintro ⟨⟩

/-- A compiled rule set knows what its lines are compiled to, each of which is sound. -/
theorem matchers_of_compile (compiled : compile rules root extra = .ok set) :
    set.root = root ∧
      set.matchers = (allPatterns rules root extra).filterMap Matcher.ofLine? ∧
        ∀ line ∈ allPatterns rules root extra, ∃ matcher, Matcher.compile line = .ok matcher := by
  obtain ⟨rfl, sound⟩ := compile_eq_ok_iff.mp compiled
  exact ⟨rfl, rfl, sound⟩

/-- Rules with sound lines are compiled. -/
theorem exists_compile
    (sound : ∀ line ∈ allPatterns rules root extra, ∃ matcher, Matcher.compile line = .ok matcher) :
    ∃ set, compile rules root extra = .ok set :=
  ⟨_, compile_eq_ok_iff.mpr ⟨rfl, sound⟩⟩

/-- The way from a root to a path, by which a rule set knows the path. -/
def wayTo (root path : Path) : String :=
  Path.relativeText (Path.normalNames root.names) (Path.normalNames path.names)

/-- Rule sets of one root with the same lines that match a path decide the same on it. -/
theorem ignores_congr {other : RuleSet} {path : Path} (sameRoot : set.root = other.root)
    (same : Matcher.hits (wayTo set.root path) set.matchers =
      Matcher.hits (wayTo set.root path) other.matchers) :
    set.ignores path false = other.ignores path false := by
  have decided : Matcher.verdictBy? Matcher.itselfFirst set.matchers (wayTo set.root path) =
      Matcher.verdictBy? Matcher.itselfFirst other.matchers (wayTo set.root path) :=
    Matcher.verdict?_congr same
  unfold wayTo at decided
  unfold ignores ignoresBy ignoresRelativeBy
  rw [← sameRoot]
  simp only [Bool.false_eq_true, if_false, decided]

end RuleSet

/-! ## Ignore files -/

/-- The rules of the ignore file in a directory, if there is one that is text. -/
def rulesIn (tree : FileTree) (directory : Path) : List Rule :=
  match tree.text? (directory.child fileName) with
  | some text => rulesOf directory text
  | none => []

/-- The lines that the ignore file in a directory stands for, seen from a root. -/
def linesIn (tree : FileTree) (root directory : Path) : List String :=
  (rulesIn tree directory).flatMap fun rule => rule.normalize root

theorem parent_child_fileName (directory : Path) :
    (directory.child fileName).parent = directory := by
  have name : Path.ofText fileName = ⟨.here, [".gitignore"]⟩ := by decide
  simp [Path.child, name, Path.append, Path.parent, Path.isAbsolute]

theorem rulesIn_of_not_isFile (noFile : tree.isFile (directory.child fileName) = false) :
    rulesIn tree directory = [] := by
  have noText : tree.text? (directory.child fileName) = none := by
    unfold FileTree.isFile at noFile
    unfold FileTree.text? FileTree.bytes?
    split
    · rename_i names bytes parsed found
      rw [found] at noFile
      cases noFile
    · rfl
  rw [rulesIn, noText]

/-! ## Collecting -/

/-- The rule set that is collected for a directory: its ignore files are those of the scopes. -/
structure IsCollected
    (tree : FileTree) (root searched : Path) (extra : List String) (set : RuleSet) : Prop where
  reachable : ∀ scope ∈ scopes root [searched], tree.lookup (scope.child fileName) ≠ .error .tooLong
  compiled : RuleSet.compile ((scopes root [searched]).flatMap (rulesIn tree)) root extra = .ok set

/-- What is known of all rule sets that some rules are compiled to is known of what is collected. -/
theorem exists_isCollected {directories : List Path} {check : RuleSet → Bool} {checked : Bool}
    (sorted : scopes root [searched] = directories)
    (tested : ∀ scope ∈ directories, tree.passes Entry.isFile (scope.child fileName) =
      .ok (tree.isFile (scope.child fileName)))
    (compiled : (RuleSet.compile (directories.flatMap (rulesIn tree)) root extra).toOption.map
      check = some checked) :
    ∃ set, IsCollected tree root searched extra set ∧ check set = checked := by
  subst sorted
  obtain ⟨set, known, checks⟩ := Option.map_eq_some_iff.mp compiled
  have reachable := fun scope member => (FileTree.isFile_of_passes (tested scope member)).2
  exact ⟨set, ⟨reachable, eq_ok_of_toOption known⟩, checks⟩

/-- The canonical paths of searched directories. -/
def AreResolved (tree : FileTree) : List Path → List Path → Prop :=
  Listwise fun path found => path.hasNull = false ∧ tree.resolve? path = some found

theorem AreResolved.unique {searched resolved others : List Path}
    (areResolved : AreResolved tree searched resolved) (again : AreResolved tree searched others) :
    resolved = others := by
  apply Listwise.unique areResolved again
  rintro path found other ⟨-, known⟩ ⟨-, otherKnown⟩
  exact Option.some.inj (known.symm.trans otherKnown)

/-- Where collecting starts: the canonical paths of the root and of the searched directories. -/
structure StartsAt
    (tree : FileTree) (searched : List Path) (root base : Path) (resolved : List Path) : Prop where
  noNull : root.hasNull = false
  known : tree.resolve? root = some base
  areResolved : AreResolved tree searched resolved

section Collecting

variable {σ : Type} {good : σ → Prop} {cause : Failure → Prop}

theorem ends_isFile {path : Path}
    (blamed : tree.lookup path = .error .tooLong → cause (.tooLong path)) :
    Task.Ends tree good
      (fun found => found = tree.isFile path ∧ tree.lookup path ≠ .error .tooLong) cause
      (Task.isFile path) :=
  (Task.ends_passes Entry.isFile path blamed).imp (fun _ => FileTree.isFile_of_passes) fun _ => id

theorem ends_findFiles {searched : List Path}
    (null : ∀ path ∈ searched, path.hasNull = true → cause (.nullCharacter path))
    (loop : ∀ path ∈ searched, tree.resolve? path = none → cause (.linkLoop path))
    (long : ∀ resolved, AreResolved tree searched resolved → ∀ scope ∈ scopes root resolved,
      tree.lookup (scope.child fileName) = .error .tooLong →
        cause (.tooLong (scope.child fileName))) :
    Task.Ends tree good
      (fun files => ∃ resolved, AreResolved tree searched resolved ∧
        files = ((scopes root resolved).map (·.child fileName)).filter tree.isFile ∧
          ∀ scope ∈ scopes root resolved, tree.lookup (scope.child fileName) ≠ .error .tooLong)
      cause (findFiles searched root) := by
  unfold findFiles
  have resolves : ∀ path ∈ searched, Task.Ends tree good
      (fun found => path.hasNull = false ∧ tree.resolve? path = some found) cause
      (Task.resolvePath path) :=
    fun path member => Task.ends_resolvePath path (null path member) (loop path member)
  refine (Task.ends_mapM resolves).bind fun resolved known => ?_
  have tests : ∀ path ∈ (scopes root resolved).map (·.child fileName),
      Task.Ends tree good
        (fun found => found = tree.isFile path ∧ tree.lookup path ≠ .error .tooLong) cause
        (Task.isFile path) := by
    intro path member
    obtain ⟨scope, scopeMember, rfl⟩ := List.mem_map.mp member
    exact ends_isFile (long resolved known scope scopeMember)
  refine (Task.ends_filterM tests).imp ?_ fun _ => id
  rintro files ⟨rfl, reachable⟩
  exact ⟨resolved, known, rfl, fun scope member =>
    reachable _ (List.mem_map.mpr ⟨scope, member, rfl⟩)⟩

/-- An ignore file that cannot be read gives no rules. -/
theorem ends_readRules (directory : Path) :
    Task.Ends tree good (fun rules => rules = rulesIn tree directory) cause
      (readRules (directory.child fileName)) := by
  unfold readRules rulesIn
  refine Task.ends_files.bind ?_
  rintro files rfl
  cases files.text? (directory.child fileName) with
  | some text =>
    dsimp only
    rw [parent_child_fileName]
    exact Task.ends_pure rfl
  | none => exact (Task.ends_note _).bind fun _ _ => Task.ends_pure rfl

/-- The rules of the files among the ignore files of some directories are the rules in these. -/
theorem flatten_rules {directories : List Path} {rules : List (List Rule)}
    (read : Listwise (fun file rules => ∀ directory, file = directory.child fileName →
        rules = rulesIn tree directory)
      ((directories.map (·.child fileName)).filter tree.isFile) rules) :
    rules.flatten = directories.flatMap (rulesIn tree) := by
  induction directories generalizing rules with
  | nil =>
    cases read
    rfl
  | cons directory rest ih =>
    rw [List.flatMap_cons]
    rw [List.map_cons] at read
    cases isFile : tree.isFile (directory.child fileName) with
    | false =>
      rw [List.filter_cons_of_neg (by simp [isFile])] at read
      rw [rulesIn_of_not_isFile isFile, List.nil_append, ih read]
    | true =>
      rw [List.filter_cons_of_pos isFile] at read
      cases read with
      | cons head tail =>
        rw [List.flatten_cons, head directory rfl, ih tail]

/-- What collecting for directories comes to: the rules of their scopes, or a failure where a path
holds a null character or leads into a loop of links, an ignore file has too long a path or a line
is no pattern. -/
theorem ends_collectAll {searched : List Path}
    (null : ∀ path ∈ root :: searched, path.hasNull = true → cause (.nullCharacter path))
    (loop : ∀ path ∈ root :: searched, tree.resolve? path = none → cause (.linkLoop path))
    (long : ∀ base resolved, StartsAt tree searched root base resolved →
      ∀ scope ∈ scopes base resolved, tree.lookup (scope.child fileName) = .error .tooLong →
        cause (.tooLong (scope.child fileName)))
    (faulty : ∀ base resolved fault, StartsAt tree searched root base resolved →
      RuleSet.compile ((scopes base resolved).flatMap (rulesIn tree)) base extra = .error fault →
        cause (.ignorePattern fault)) :
    Task.Ends tree good
      (fun set => ∃ base resolved, StartsAt tree searched root base resolved ∧
        (∀ scope ∈ scopes base resolved, tree.lookup (scope.child fileName) ≠ .error .tooLong) ∧
        RuleSet.compile ((scopes base resolved).flatMap (rulesIn tree)) base extra = .ok set)
      cause (collect searched root extra) := by
  unfold collect
  refine (Task.ends_resolvePath root (null root List.mem_cons_self)
    (loop root List.mem_cons_self)).bind ?_
  rintro base ⟨noNull, known⟩
  refine (ends_findFiles (fun path member => null path (List.mem_cons_of_mem _ member))
    (fun path member => loop path (List.mem_cons_of_mem _ member))
    fun resolved areResolved => long base resolved ⟨noNull, known, areResolved⟩).bind ?_
  rintro _ ⟨resolved, areResolved, rfl, reachable⟩
  have reads : ∀ file ∈ ((scopes base resolved).map (·.child fileName)).filter tree.isFile,
      Task.Ends tree good
        (fun rules => ∀ directory, file = directory.child fileName →
          rules = rulesIn tree directory) cause (readRules file) := by
    intro file member
    obtain ⟨scope, -, rfl⟩ := List.mem_map.mp (List.mem_of_mem_filter member)
    refine (ends_readRules scope).imp ?_ fun _ => id
    -- Rules are read from a path; the directory that they are kept for is its parent.
    rintro _ rfl other same
    rw [← parent_child_fileName scope, same, parent_child_fileName]
  refine (Task.ends_mapM reads).bind fun rules read => ?_
  rw [flatten_rules read]
  split
  · rename_i set compiled
    exact Task.ends_pure ⟨base, resolved, ⟨noNull, known, areResolved⟩, reachable, compiled⟩
  · rename_i fault compiled
    exact Task.ends_fail (faulty base resolved fault ⟨noNull, known, areResolved⟩ compiled)

theorem StartsAt.eq_of_single {base : Path} {resolved : List Path}
    (starts : StartsAt tree [directory] root base resolved)
    (rootKnown : tree.resolve? root = some root) (known : tree.resolve? directory = some searched) :
    base = root ∧ resolved = [searched] := by
  obtain ⟨-, baseKnown, areResolved⟩ := starts
  refine ⟨Option.some.inj (baseKnown.symm.trans rootKnown), ?_⟩
  cases areResolved with
  | cons head tail =>
    cases tail
    rw [Option.some.inj (head.2.symm.trans known)]

/-- What collecting for a directory comes to: the rules of its scopes, or a failure where a path
holds a null character, an ignore file has too long a path or a line is no pattern. -/
theorem ends_collect (rootKnown : tree.resolve? root = some root)
    (known : tree.resolve? directory = some searched)
    (null : ∀ path ∈ [root, directory], path.hasNull = true → cause (.nullCharacter path))
    (long : ∀ scope ∈ scopes root [searched],
      tree.lookup (scope.child fileName) = .error .tooLong →
        cause (.tooLong (scope.child fileName)))
    (faulty : ∀ fault,
      RuleSet.compile ((scopes root [searched]).flatMap (rulesIn tree)) root extra = .error fault →
        cause (.ignorePattern fault)) :
    Task.Ends tree good
      (fun set => root.hasNull = false ∧ IsCollected tree root searched extra set) cause
      (collect [directory] root extra) := by
  refine (ends_collectAll null ?_ ?_ ?_).imp ?_ fun _ => id
  · intro path member loops
    rcases List.mem_cons.mp member with rfl | rest
    · rw [rootKnown] at loops
      cases loops
    · rw [List.mem_singleton.mp rest, known] at loops
      cases loops
  · rintro base resolved starts
    obtain ⟨rfl, rfl⟩ := starts.eq_of_single rootKnown known
    exact long
  · rintro base resolved fault starts
    obtain ⟨rfl, rfl⟩ := starts.eq_of_single rootKnown known
    exact faulty fault
  · rintro set ⟨base, resolved, starts, reachable, compiled⟩
    obtain ⟨rfl, rfl⟩ := starts.eq_of_single rootKnown known
    exact ⟨starts.noNull, reachable, compiled⟩

end Collecting

/-! ## Silent ignore files -/

/-- The ignore file in a directory, if there is one, can be read, and no rule in it matches a file.
-/
structure IsSilent (tree : FileTree) (root file directory : Path) : Prop where
  reachable : tree.lookup (directory.child fileName) ≠ .error .tooLong
  spares : ∀ line ∈ linesIn tree root directory,
    Matcher.spares line (RuleSet.wayTo root file) = true

/-- Two directories have the same scopes up to some whose ignore files do not speak of a file. -/
def DifferSilently (tree : FileTree) (root file first second : Path) : Prop :=
  ∀ scope, (scope ∈ scopesBelow root [first] ↔ scope ∉ scopesBelow root [second]) →
    IsSilent tree root file scope

theorem DifferSilently.symm (silently : DifferSilently tree root file first second) :
    DifferSilently tree root file second first :=
  fun scope differs => silently scope (by tauto)

theorem DifferSilently.isSilent (silently : DifferSilently tree root file first second)
    {scope : Path} (unshared : scope ∉ scopesBelow root [first])
    (place : scope ∈ scopesBelow root [second]) :
    IsSilent tree root file scope :=
  silently scope ⟨fun shared => absurd shared unshared, fun outside => absurd place outside⟩

/-- The lines in a directory that match a file. -/
def hitsIn (tree : FileTree) (root file directory : Path) : List (Bool × Matcher.Strength) :=
  Matcher.hits (RuleSet.wayTo root file) ((linesIn tree root directory).filterMap Matcher.ofLine?)

theorem IsSilent.hitsIn_eq_nil (silent : IsSilent tree root file directory) :
    hitsIn tree root file directory = [] := by
  unfold hitsIn Matcher.hits
  rw [List.filterMap_eq_nil_iff]
  intro matcher member
  obtain ⟨line, lineMember, known⟩ := List.mem_filterMap.mp member
  obtain ⟨found, compiled, spared⟩ := Matcher.exists_of_spares (silent.spares line lineMember)
  rw [Matcher.ofLine?, compiled] at known
  rw [spared matcher known]
  rfl

/-- The lines that match a file are those in the scopes, and those that stand in no file. -/
theorem hits_allPatterns (directories : List Path) :
    Matcher.hits (RuleSet.wayTo root file)
        ((RuleSet.allPatterns (directories.flatMap (rulesIn tree)) root extra).filterMap
          Matcher.ofLine?) =
      directories.flatMap (hitsIn tree root file) ++
        Matcher.hits (RuleSet.wayTo root file)
          ((alwaysIgnored ++ extra).filterMap Matcher.ofLine?) := by
  unfold RuleSet.allPatterns hitsIn linesIn Matcher.hits
  rw [List.append_assoc, List.filterMap_append, List.filterMap_append, List.flatMap_assoc,
    List.filterMap_flatMap, List.filterMap_flatMap]

/-- Every line of the scopes of a directory is one in the scopes of the other, in a silent ignore
file or in no file. -/
theorem mem_allPatterns_of_silently (silently : DifferSilently tree root file first second)
    {line : String}
    (member : line ∈ RuleSet.allPatterns ((scopes root [second]).flatMap (rulesIn tree)) root
      extra) :
    line ∈ RuleSet.allPatterns ((scopes root [first]).flatMap (rulesIn tree)) root extra ∨
      ∃ scope, IsSilent tree root file scope ∧ line ∈ linesIn tree root scope := by
  simp only [RuleSet.allPatterns, List.mem_append, List.mem_flatMap, scopes_eq_append,
    List.mem_mergeSort] at member ⊢
  rcases member with (⟨rule, ⟨scope, place, ruleMember⟩, lineMember⟩ | always) | more
  · by_cases shared : scope ∈ above root ∨ scope ∈ scopesBelow root [first]
    · exact .inl (.inl (.inl ⟨rule, ⟨scope, shared, ruleMember⟩, lineMember⟩))
    · obtain ⟨notAbove, unshared⟩ := not_or.mp shared
      refine .inr ⟨scope, silently.isSilent unshared (place.resolve_left notAbove), ?_⟩
      exact List.mem_flatMap.mpr ⟨rule, ruleMember, lineMember⟩
  · exact .inl (.inl (.inr always))
  · exact .inl (.inr more)

/-- Where a rule set is collected for a directory, one is collected for another directory too when
their scopes differ silently. -/
theorem IsCollected.exists_other {set : RuleSet} (collected : IsCollected tree root first extra set)
    (silently : DifferSilently tree root file first second) :
    ∃ other, IsCollected tree root second extra other := by
  obtain ⟨-, -, sound⟩ := RuleSet.matchers_of_compile collected.compiled
  have reachable : ∀ scope ∈ scopes root [second],
      tree.lookup (scope.child fileName) ≠ .error .tooLong := by
    intro scope member
    by_cases shared : scope ∈ scopes root [first]
    · exact collected.reachable scope shared
    · rw [scopes_eq_append, List.mem_append, List.mem_mergeSort] at member shared
      obtain ⟨notAbove, unshared⟩ := not_or.mp shared
      exact (silently.isSilent unshared (member.resolve_left notAbove)).reachable
  obtain ⟨other, compiled⟩ := RuleSet.exists_compile fun line member => by
    rcases mem_allPatterns_of_silently silently member with shared | ⟨scope, silent, inScope⟩
    · exact sound line shared
    · obtain ⟨matcher, compiled, -⟩ := Matcher.exists_of_spares (silent.spares line inScope)
      exact ⟨matcher, compiled⟩
  exact ⟨other, reachable, compiled⟩

/-- Rule sets collected for directories whose scopes differ silently decide the same on a file. -/
theorem IsCollected.ignores_eq {set other : RuleSet}
    (collected : IsCollected tree root first extra set)
    (otherCollected : IsCollected tree root second extra other)
    (silently : DifferSilently tree root file first second) (rootProper : root.IsProper)
    (firstProper : first.IsProper) :
    set.ignores file false = other.ignores file false := by
  obtain ⟨setRoot, matchers, -⟩ := RuleSet.matchers_of_compile collected.compiled
  obtain ⟨otherRoot, otherMatchers, -⟩ := RuleSet.matchers_of_compile otherCollected.compiled
  refine RuleSet.ignores_congr (setRoot.trans otherRoot.symm) ?_
  rw [setRoot, matchers, otherMatchers, hits_allPatterns, hits_allPatterns, scopes_eq_append,
    scopes_eq_append, List.flatMap_append, List.flatMap_append]
  have proper : ∀ scope ∈ scopesBelow root [first], scope.IsProper := fun scope member =>
    isProper_of_mem_scopesBelow rootProper (by simpa using firstProper) member
  have sorted : ((scopesBelow root [first]).mergeSort scopeLe).flatMap (hitsIn tree root file) =
      ((scopesBelow root [second]).mergeSort scopeLe).flatMap (hitsIn tree root file) :=
    flatMap_mergeSort_eq (nodup_eraseDups _) (nodup_eraseDups _) scopeLe_trans scopeLe_total
      (fun a aMember b bMember => scopeLe_antisymm (proper a aMember) (proper b bMember))
      fun scope differs => (silently scope differs).hitsIn_eq_nil
  rw [sorted]

end Ignore
end ModuleAtlas
