import Mathlib.Data.List.Sort
import ModuleAtlas.Proofs.Ignore.Collected

/-!
# Ignore files from the coarsest scope to the finest

The ignore files that are collected are those above the root, in the root and on the ways from the
root down to searched directories, each once.  Sorting puts every directory behind the directories
that it lies in, and no two scopes have the same place in the order: the files for some of the
directories are a part of the files for all of them, in the same order.
-/

namespace ModuleAtlas

namespace Path

variable {directory path : Path}

theorem isWithin_iff :
    isWithin directory path = true ↔
      path.anchor = directory.anchor ∧ directory.names <+: path.names := by
  simp [isWithin]

theorem isWithin_self (path : Path) : isWithin path path = true := by
  simp [isWithin_iff]

/-- A path is within a directory exactly when the directory is a beginning of the path. -/
theorem isWithin_iff_take :
    isWithin directory path = true ↔
      directory.names.length ≤ path.names.length ∧
        directory = ⟨path.anchor, path.names.take directory.names.length⟩ := by
  rw [isWithin_iff]
  constructor
  · rintro ⟨anchor, starts⟩
    refine ⟨starts.length_le, ?_⟩
    rw [anchor, ← List.prefix_iff_eq_take.mp starts]
  · rintro ⟨_, equal⟩
    refine ⟨(congrArg Path.anchor equal).symm, ?_⟩
    exact List.prefix_iff_eq_take.mpr (congrArg Path.names equal)

theorem length_le_of_isWithin (within : isWithin directory path = true) :
    directory.names.length ≤ path.names.length :=
  (isWithin_iff_take.mp within).1

/-- A directory has fewer names than everything else in it. -/
theorem length_lt_of_isWithin (within : isWithin directory path = true) (other : directory ≠ path) :
    directory.names.length < path.names.length := by
  obtain ⟨short, equal⟩ := isWithin_iff_take.mp within
  apply Nat.lt_of_le_of_ne short
  intro same
  apply other
  rw [equal, same, List.take_length]

theorem isWithin_trans {between : Path} (within : isWithin directory between = true)
    (betweenWithin : isWithin between path = true) :
    isWithin directory path = true := by
  obtain ⟨anchor, starts⟩ := isWithin_iff.mp within
  obtain ⟨betweenAnchor, betweenStarts⟩ := isWithin_iff.mp betweenWithin
  exact isWithin_iff.mpr ⟨betweenAnchor.trans anchor, starts.trans betweenStarts⟩

theorem IsProper.of_isWithin (proper : path.IsProper) (within : isWithin directory path = true) :
    directory.IsProper := by
  rw [(isWithin_iff_take.mp within).2]
  exact proper.take _

end Path

namespace Ignore

variable {tree : FileTree} {root directory : Path} {searched resolved fewer : List Path}

/-! ## Which directories are scopes -/

/-- A directory that the root lies in, the root itself, or one on the way from the root down to a
searched directory. -/
def IsScope (root : Path) (resolved : List Path) (directory : Path) : Prop :=
  Path.isWithin directory root = true ∨
    ∃ path ∈ resolved, Path.isWithin root directory = true ∧ Path.isWithin directory path = true

theorem mem_above :
    directory ∈ above root ↔ Path.isWithin directory root = true ∧ directory ≠ root := by
  simp only [above, List.mem_map, List.mem_range]
  constructor
  · rintro ⟨length, short, rfl⟩
    refine ⟨?_, ?_⟩
    · simp [Path.isWithin_iff, List.take_prefix]
    · intro equal
      have lengths := congrArg (·.names.length) equal
      simp only [List.length_take] at lengths
      omega
  · rintro ⟨within, other⟩
    exact ⟨_, Path.length_lt_of_isWithin within other, (Path.isWithin_iff_take.mp within).2.symm⟩

theorem mem_upTo {path : Path} (inside : Path.isWithin root path = true) :
    directory ∈ upTo root path ↔
      Path.isWithin root directory = true ∧ Path.isWithin directory path = true := by
  have short := Path.length_le_of_isWithin inside
  obtain ⟨anchor, starts⟩ := Path.isWithin_iff.mp inside
  simp only [upTo, List.mem_map, List.mem_range]
  constructor
  · rintro ⟨steps, few, rfl⟩
    refine ⟨Path.isWithin_iff.mpr ⟨anchor, ?_⟩, ?_⟩
    · apply List.prefix_of_prefix_length_le starts (List.take_prefix _ _)
      rw [List.length_take]
      omega
    · simp [Path.isWithin_iff, List.take_prefix]
  · rintro ⟨below, within⟩
    have least := Path.length_le_of_isWithin below
    obtain ⟨most, equal⟩ := Path.isWithin_iff_take.mp within
    refine ⟨path.names.length - directory.names.length, by omega, ?_⟩
    rw [Nat.sub_sub_self most]
    exact equal.symm

theorem mem_scopesBelow :
    directory ∈ scopesBelow root resolved ↔ directory = root ∨
      ∃ path ∈ resolved, Path.isWithin root directory = true ∧
        Path.isWithin directory path = true := by
  simp only [scopesBelow, List.mem_eraseDups, List.mem_cons, List.mem_flatMap]
  apply or_congr_right
  apply exists_congr
  intro path
  apply and_congr_right
  intro _
  split
  · rename_i inside
    exact mem_upTo inside
  · rename_i outside
    simp only [List.not_mem_nil, false_iff, not_and]
    intro below within
    exact outside (Path.isWithin_trans below within)

/-- The directories that are looked through are the scopes, and no others. -/
theorem mem_scopes : directory ∈ scopes root resolved ↔ IsScope root resolved directory := by
  rw [scopes_eq_append, List.mem_append, List.mem_mergeSort, mem_above, mem_scopesBelow, IsScope]
  constructor
  · rintro (⟨above, -⟩ | rfl | below)
    · exact .inl above
    · exact .inl (Path.isWithin_self _)
    · exact .inr below
  · rintro (above | below)
    · by_cases same : directory = root
      · exact .inr (.inl same)
      · exact .inl ⟨above, same⟩
    · exact .inr (.inr below)

/-- With fewer directories searched there are fewer scopes. -/
theorem IsScope.of_subset {others : List Path} (isScope : IsScope root others directory)
    (subset : others ⊆ resolved) :
    IsScope root resolved directory :=
  isScope.imp_right fun ⟨path, member, below⟩ => ⟨path, subset member, below⟩

/-! ## The order of scopes -/

/-- The first path has its place before the second one. -/
def Precedes (first second : Path) : Prop := scopeLe second first = false

variable {first second : Path}

theorem Precedes.le (precedes : Precedes first second) : scopeLe first second = true := by
  have total := scopeLe_total first second
  rwa [precedes, Bool.or_false] at total

instance : Std.Antisymm Precedes where
  antisymm first second precedes follows := by
    rw [Precedes, precedes.le] at follows
    cases follows

instance : Std.Irrefl Precedes where
  irrefl path precedes := by
    have reflexive := precedes.le
    rw [precedes] at reflexive
    cases reflexive

theorem precedes_of_length_lt (shorter : first.names.length < second.names.length) :
    Precedes first second := by
  apply Bool.eq_false_iff.mpr
  rw [Ne, scopeLe_iff]
  omega

/-- Paths in the order of scopes are a part of others in this order when they are among them. -/
theorem sublist_of_precedes {paths others : List Path} (ordered : paths.Pairwise Precedes)
    (otherOrdered : others.Pairwise Precedes) (subset : paths ⊆ others) :
    paths.Sublist others :=
  List.sublist_of_subperm_of_pairwise (List.subperm_of_subset ordered.nodup subset) ordered
    otherOrdered

theorem pairwise_above (root : Path) : (above root).Pairwise Precedes := by
  rw [above, List.pairwise_map]
  apply List.Pairwise.imp_of_mem ?_ List.pairwise_lt_range
  intro shorter longer _ inRange less
  apply precedes_of_length_lt
  have short := List.mem_range.mp inRange
  simp only [List.length_take]
  omega

/-- The root is proper as soon as a searched directory lies in it. -/
theorem isProper_or_eq_of_mem_scopesBelow (proper : ∀ path ∈ resolved, path.IsProper)
    {scope : Path} (member : scope ∈ scopesBelow root resolved) :
    scope = root ∨ scope.IsProper ∧ root.IsProper := by
  rcases mem_scopesBelow.mp member with same | ⟨path, pathMember, below, within⟩
  · exact .inl same
  · have scopeProper := (proper path pathMember).of_isWithin within
    exact .inr ⟨scopeProper, scopeProper.of_isWithin below⟩

theorem scopesBelow_antisymm (proper : ∀ path ∈ resolved, path.IsProper)
    (firstMember : first ∈ scopesBelow root resolved)
    (secondMember : second ∈ scopesBelow root resolved) (below : scopeLe first second = true)
    (above : scopeLe second first = true) : first = second := by
  rcases isProper_or_eq_of_mem_scopesBelow proper firstMember with rfl | ⟨firstProper, rootProper⟩
  · rcases isProper_or_eq_of_mem_scopesBelow proper secondMember with rfl | ⟨secondProper, again⟩
    · rfl
    · exact scopeLe_antisymm again secondProper below above
  · rcases isProper_or_eq_of_mem_scopesBelow proper secondMember with rfl | ⟨secondProper, -⟩
    · exact scopeLe_antisymm firstProper rootProper below above
    · exact scopeLe_antisymm firstProper secondProper below above

/-- No scope comes twice, and each has its place before the next one. -/
theorem pairwise_scopes (proper : ∀ path ∈ resolved, path.IsProper) :
    (scopes root resolved).Pairwise Precedes := by
  rw [scopes_eq_append, List.pairwise_append]
  refine ⟨pairwise_above root, ?_, ?_⟩
  · have sorted := List.pairwise_mergeSort scopeLe_trans scopeLe_total (scopesBelow root resolved)
    have nodup : ((scopesBelow root resolved).mergeSort scopeLe).Nodup :=
      (List.mergeSort_perm _ _).nodup_iff.mpr (nodup_eraseDups _)
    apply List.Pairwise.imp_of_mem ?_ (sorted.and nodup)
    rintro first second firstMember secondMember ⟨below, different⟩
    apply Bool.eq_false_iff.mpr
    intro above
    exact different (scopesBelow_antisymm proper (List.mem_mergeSort.mp firstMember)
      (List.mem_mergeSort.mp secondMember) below above)
  · intro first firstMember second secondMember
    obtain ⟨within, other⟩ := mem_above.mp firstMember
    have shorter := Path.length_lt_of_isWithin within other
    apply precedes_of_length_lt
    rcases mem_scopesBelow.mp (List.mem_mergeSort.mp secondMember) with rfl | ⟨path, -, below, -⟩
    · exact shorter
    · exact Nat.lt_of_lt_of_le shorter (Path.length_le_of_isWithin below)

/-! ## The ignore files of the scopes -/

/-- The ignore files in the scopes, in the order of these. -/
def ignoreFiles (tree : FileTree) (root : Path) (resolved : List Path) : List Path :=
  ((scopes root resolved).map (·.child fileName)).filter tree.isFile

/-- Some files are the ignore files of the scopes for searched directories, each once, with the file
of a directory before those of the directories in it. -/
structure Collects
    (tree : FileTree) (root : Path) (resolved files : List Path) : Prop where
  mem_iff : ∀ file, file ∈ files ↔ ∃ directory, IsScope root resolved directory ∧
    file = directory.child fileName ∧ tree.isFile file = true
  nodup : files.Nodup
  ordered : ∀ outer inner, outer.child fileName ∈ files → inner.child fileName ∈ files →
    Path.isWithin outer inner = true → outer ≠ inner →
      [outer.child fileName, inner.child fileName].Sublist files

theorem child_fileName_inj (equal : first.child fileName = second.child fileName) :
    first = second := by
  rw [← parent_child_fileName first, equal, parent_child_fileName]

theorem mem_ignoreFiles {file : Path} :
    file ∈ ignoreFiles tree root resolved ↔ ∃ directory, IsScope root resolved directory ∧
      file = directory.child fileName ∧ tree.isFile file = true := by
  simp only [ignoreFiles, List.mem_filter, List.mem_map, mem_scopes]
  constructor
  · rintro ⟨⟨directory, isScope, rfl⟩, isFile⟩
    exact ⟨directory, isScope, rfl, isFile⟩
  · rintro ⟨directory, isScope, rfl, isFile⟩
    exact ⟨⟨directory, isScope, rfl⟩, isFile⟩

theorem isScope_of_mem_ignoreFiles
    (member : directory.child fileName ∈ ignoreFiles tree root resolved) :
    IsScope root resolved directory ∧ tree.isFile (directory.child fileName) = true := by
  obtain ⟨scope, isScope, same, isFile⟩ := mem_ignoreFiles.mp member
  rw [child_fileName_inj same]
  exact ⟨isScope, same ▸ isFile⟩

/-- The files that are listed are the ignore files of the scopes, outermost first. -/
theorem collects_ignoreFiles (proper : ∀ path ∈ resolved, path.IsProper) :
    Collects tree root resolved (ignoreFiles tree root resolved) where
  mem_iff _ := mem_ignoreFiles
  nodup := by
    apply List.Nodup.filter
    exact List.Nodup.map (fun _ _ => child_fileName_inj) (pairwise_scopes proper).nodup
  ordered outer inner outerMember innerMember within other := by
    obtain ⟨outerScope, outerFile⟩ := isScope_of_mem_ignoreFiles outerMember
    obtain ⟨innerScope, innerFile⟩ := isScope_of_mem_ignoreFiles innerMember
    have inOrder : [outer, inner].Pairwise Precedes :=
      List.pairwise_pair.mpr (precedes_of_length_lt (Path.length_lt_of_isWithin within other))
    have among : [outer, inner].Sublist (scopes root resolved) := by
      apply sublist_of_precedes inOrder (pairwise_scopes proper)
      simp [mem_scopes, outerScope, innerScope]
    have kept := (among.map (·.child fileName)).filter tree.isFile
    simpa [outerFile, innerFile, ignoreFiles] using kept

/-- The files for fewer directories are among those for all, in the same order. -/
theorem ignoreFiles_sublist {others : List Path} (proper : ∀ path ∈ resolved, path.IsProper)
    (subset : others ⊆ resolved) :
    (ignoreFiles tree root others).Sublist (ignoreFiles tree root resolved) := by
  have otherProper : ∀ path ∈ others, path.IsProper := fun path member =>
    proper path (subset member)
  have fewer : scopes root others ⊆ scopes root resolved := fun directory member =>
    mem_scopes.mpr ((mem_scopes.mp member).of_subset subset)
  have among := sublist_of_precedes (pairwise_scopes otherProper) (pairwise_scopes proper) fewer
  exact (among.map _).filter _

/-! ## Collecting -/

/-- What stops collecting for searched directories. -/
inductive Obstacle (tree : FileTree) (root : Path) (searched : List Path) : Failure → Prop where
  | null {path : Path} (member : path ∈ searched) (hasNull : path.hasNull = true) :
      Obstacle tree root searched (.nullCharacter path)
  | loop {path : Path} (member : path ∈ searched) (loops : tree.resolve? path = none) :
      Obstacle tree root searched (.linkLoop path)
  | long {resolved : List Path} {directory : Path}
      (areResolved : AreResolved tree searched resolved)
      (isScope : IsScope root resolved directory)
      (tooLong : tree.lookup (directory.child fileName) = .error .tooLong) :
      Obstacle tree root searched (.tooLong (directory.child fileName))

theorem AreResolved.exists_of_subset (areResolved : AreResolved tree searched resolved)
    (subset : fewer ⊆ searched) :
    ∃ others, AreResolved tree fewer others ∧ others ⊆ resolved := by
  induction fewer with
  | nil => exact ⟨[], .nil, List.nil_subset _⟩
  | cons path rest ih =>
    obtain ⟨member, restSubset⟩ := List.cons_subset.mp subset
    obtain ⟨others, restResolved, among⟩ := ih restSubset
    obtain ⟨found, known, foundMember⟩ := Listwise.exists_related areResolved.with_mem member
    exact ⟨found :: others, .cons known restResolved, List.cons_subset.mpr ⟨foundMember, among⟩⟩

theorem AreResolved.isProper (areResolved : AreResolved tree searched resolved)
    (free : ∀ path ∈ searched, FileTree.AreFree (tree.fullNames path)) :
    ∀ path ∈ resolved, path.IsProper := by
  intro path member
  obtain ⟨written, writtenMember, -, known⟩ := Listwise.exists_origin areResolved member
  exact FileTree.isProper_of_resolve? (free written writtenMember) known

/-- What stops collecting for some of the directories stops it for all. -/
theorem Obstacle.of_subset {failure : Failure} (obstacle : Obstacle tree root fewer failure)
    (areResolved : AreResolved tree searched resolved) (subset : fewer ⊆ searched) :
    Obstacle tree root searched failure := by
  cases obstacle with
  | null member hasNull => exact .null (subset member) hasNull
  | loop member loops => exact .loop (subset member) loops
  | long fewerResolved isScope tooLong =>
    obtain ⟨others, othersResolved, among⟩ := areResolved.exists_of_subset subset
    rw [fewerResolved.unique othersResolved] at isScope
    exact .long areResolved (isScope.of_subset among) tooLong

/-- Collecting comes to the ignore files of the scopes or to something that stops it. -/
theorem ends_findFiles_of_obstacle {σ : Type} :
    Task.Ends tree (fun _ : σ => True)
      (fun files => ∃ resolved, AreResolved tree searched resolved ∧
        files = ignoreFiles tree root resolved ∧ ¬∃ failure, Obstacle tree root searched failure)
      (Obstacle tree root searched) (findFiles searched root) := by
  refine (ends_findFiles (fun _ => .null) (fun _ => .loop) ?_).imp ?_ fun _ => id
  · intro resolved areResolved scope member
    exact .long areResolved (mem_scopes.mp member)
  · rintro _ ⟨resolved, areResolved, rfl, reachable⟩
    refine ⟨resolved, areResolved, rfl, ?_⟩
    rintro ⟨_, ⟨member, hasNull⟩ | ⟨member, loops⟩ | ⟨again, isScope, tooLong⟩⟩
    · obtain ⟨found, noNull, -⟩ := Listwise.exists_related areResolved member
      rw [hasNull] at noNull
      cases noNull
    · obtain ⟨found, -, known⟩ := Listwise.exists_related areResolved member
      rw [loops] at known
      cases known
    · rw [← areResolved.unique again] at isScope
      exact reachable _ (mem_scopes.mpr isScope) tooLong

theorem findFiles_of_no_obstacle {σ : Type}
    (unstopped : ¬∃ failure, Obstacle tree root searched failure) (journal : Journal σ) :
    ∃ resolved, AreResolved tree searched resolved ∧
      (findFiles searched root tree journal).1 = .ok (ignoreFiles tree root resolved) := by
  have unblamed : ∀ failure, ¬Obstacle tree root searched failure := fun failure obstacle =>
    unstopped ⟨failure, obstacle⟩
  have ends := @ends_findFiles_of_obstacle tree root searched σ
  obtain ⟨_, answered, resolved, areResolved, rfl, -⟩ :
      ∃ files, (findFiles searched root tree journal).1 = .ok files ∧ _ :=
    ends.exists_answer unblamed trivial
  exact ⟨resolved, areResolved, answered⟩

/-- Collecting ignore files comes to an end from every state.  When nothing stops it, it answers
with the ignore files above the root, in it and on the ways from it down to searched directories,
each once and from the coarsest scope to the finest; with fewer directories searched it answers with
a part of these files in the same order.  Otherwise it fails by something that stops it. -/
theorem findFiles_coarse_to_fine {σ : Type}
    (free : ∀ path ∈ searched, FileTree.AreFree (tree.fullNames path)) (journal : Journal σ) :
    ((¬∃ failure, Obstacle tree root searched failure) →
      ∃ resolved files, AreResolved tree searched resolved ∧
        (findFiles searched root tree journal).1 = .ok files ∧
        Collects tree root resolved files ∧
        ∀ fewer, fewer ⊆ searched → ∀ later : Journal σ, ∃ others,
          (findFiles fewer root tree later).1 = .ok others ∧ others.Sublist files) ∧
    ((∃ failure, Obstacle tree root searched failure) →
      ∃ failure, Obstacle tree root searched failure ∧
        (findFiles searched root tree journal).1 = .error failure) := by
  constructor
  · intro unstopped
    obtain ⟨resolved, areResolved, answered⟩ := findFiles_of_no_obstacle unstopped journal
    have proper := areResolved.isProper free
    refine ⟨resolved, _, areResolved, answered, collects_ignoreFiles proper, ?_⟩
    intro fewer subset later
    have fewerUnstopped : ¬∃ failure, Obstacle tree root fewer failure := by
      rintro ⟨failure, obstacle⟩
      exact unstopped ⟨failure, obstacle.of_subset areResolved subset⟩
    obtain ⟨others, othersResolved, othersAnswered⟩ :=
      findFiles_of_no_obstacle fewerUnstopped later
    obtain ⟨again, againResolved, among⟩ := areResolved.exists_of_subset subset
    rw [othersResolved.unique againResolved] at othersAnswered
    exact ⟨_, othersAnswered, ignoreFiles_sublist proper among⟩
  · intro stopped
    obtain ⟨outcome, after, ran, ofOne, -⟩ := ends_findFiles_of_obstacle journal trivial
    cases ofOne with
    | ok collected =>
      obtain ⟨-, -, -, unstopped⟩ := collected
      exact absurd stopped unstopped
    | error obstacle => exact ⟨_, obstacle, by rw [ran]⟩

/-- Ignore files at the top, in a directory and in one below it. -/
def layered : FileTree :=
  let ignoreFile : String × Entry := (".gitignore", .file .empty none)
  ⟨.directory [ignoreFile, ("one", .directory [ignoreFile, ("two", .directory [ignoreFile])])], []⟩

theorem layered_unstopped :
    ¬∃ failure, Obstacle layered (.ofRoot ["one"]) [.ofRoot ["one", "two"]] failure := by
  rintro ⟨_, ⟨member, hasNull⟩ | ⟨member, loops⟩ | @⟨resolved, directory, known, isScope, long⟩⟩
  · rw [List.mem_singleton.mp member] at hasNull
    cases hasNull
  · rw [List.mem_singleton.mp member] at loops
    cases loops
  · have same : resolved = [.ofRoot ["one", "two"]] := known.unique (.cons ⟨rfl, rfl⟩ .nil)
    have reached : ∀ scope ∈ above (.ofRoot ["one"]) ++
        scopesBelow (.ofRoot ["one"]) [.ofRoot ["one", "two"]],
          (layered.lookup (scope.child fileName)).toOption.isSome = true := by
      decide +kernel
    have listed := mem_scopes.mpr isScope
    rw [same, scopes_eq_append, List.mem_append, List.mem_mergeSort, ← List.mem_append] at listed
    have found := reached directory listed
    rw [long] at found
    cases found

theorem layered_coarse_to_fine :
    ∃ resolved files, AreResolved layered [.ofRoot ["one", "two"]] resolved ∧
      (findFiles [.ofRoot ["one", "two"]] (.ofRoot ["one"]) layered ⟨(), []⟩).1 = .ok files ∧
      Collects layered (.ofRoot ["one"]) resolved files ∧
      ∀ fewer, fewer ⊆ [.ofRoot ["one", "two"]] → ∀ later : Journal Unit, ∃ others,
        (findFiles fewer (.ofRoot ["one"]) layered later).1 = .ok others ∧
          others.Sublist files := by
  refine (findFiles_coarse_to_fine ?_ ⟨(), []⟩).1 layered_unstopped
  intro path member
  rw [List.mem_singleton.mp member]
  unfold FileTree.AreFree Text.IsFreeOf
  decide

/-- A link that leads to itself. -/
def looped : FileTree := ⟨.directory [("loop", .link "loop")], []⟩

/-- A searched directory that cannot be resolved stops collecting. -/
theorem loop_stops_collecting :
    (findFiles [.ofRoot ["loop"]] (.ofRoot [])).outcomeFrom looped () =
      .error (.linkLoop (.ofRoot ["loop"])) :=
  rfl

end Ignore
end ModuleAtlas
