import Mathlib.Data.List.TakeWhile
import ModuleAtlas.Proofs.Ignore.Collected
import ModuleAtlas.Proofs.Invocation.Patterns

/-!
# The name that a file is given by

A pattern and the path of a file that it matches stand for the same file in sessions of their own.
Each session goes by the ignore files on the way from the root to where it starts to search: to the
directory of the file, or to the directory that the names of the pattern before its first wildcard
lead to.  So the file is kept in both sessions or in neither when the ignore files that only one of
them reads do not speak of it, and it matters for nothing else how the file was named.
-/

namespace ModuleAtlas

theorem Path.IsProper.isAbsolute {path : Path} (proper : path.IsProper) :
    path.isAbsolute = true := by
  unfold Path.isAbsolute
  rw [proper.anchor]
  rfl

theorem Path.IsProper.parent {path : Path} (proper : path.IsProper) : path.parent.IsProper := by
  have taken := proper.take (path.names.length - 1)
  rwa [← List.dropLast_eq_take] at taken

variable {tree : FileTree} {root base start file : Path} {pattern literal : String}

/-! ## Files that patterns match -/

namespace Glob

/-- The paths that a pattern stands for, seen from a root. -/
def pathsFrom (tree : FileTree) (root : Path) (pattern : String) : List Path :=
  if hasMagic pattern.toList then expand tree root pattern else [root.child pattern]

/-- One of the paths that a pattern stands for leads to a file. -/
def Matches (tree : FileTree) (root : Path) (pattern : String) (file : Path) : Prop :=
  ∃ written ∈ pathsFrom tree root pattern, tree.passes Entry.isFile written = .ok true ∧
    tree.resolve? written = some file

theorem isAbsolute_append (absolute : root.isAbsolute = true) (path : Path) :
    (root.append path).isAbsolute = true := by
  unfold Path.append
  split
  · assumption
  · exact absolute

theorem isAbsolute_of_mem_pathsFrom (absolute : root.isAbsolute = true)
    {written : Path} (member : written ∈ pathsFrom tree root pattern) :
    written.isAbsolute = true := by
  unfold pathsFrom at member
  split at member
  · obtain ⟨found, -, rfl⟩ := List.mem_map.mp member
    exact isAbsolute_append absolute _
  · rw [List.mem_singleton.mp member]
    exact isAbsolute_append absolute _

theorem pathsFrom_of_plain (plain : hasMagic literal.toList = false) :
    pathsFrom tree root literal = [root.child literal] :=
  if_neg (by simp [plain])

/-- A matched file in a tree without links is found at its canonical path. -/
theorem Matches.lookup (matched : Matches tree root pattern file)
    (unlinked : tree.root.linkCount = 0) (absolute : root.isAbsolute = true) :
    ∃ names entry, file = .ofRoot names ∧ tree.lookup file = .ok (names, entry) ∧
      entry.isFile = true := by
  obtain ⟨written, member, isFile, known⟩ := matched
  unfold FileTree.passes at isFile
  split at isFile
  · rename_i names entry looked
    have same : file = .ofRoot names :=
      Option.some.inj (known.symm.trans (FileTree.resolve?_of_lookup looked).1)
    refine ⟨names, entry, same, ?_, Except.ok.inj isFile⟩
    rw [same]
    exact FileTree.lookup_ofRoot unlinked (isAbsolute_of_mem_pathsFrom absolute member) looked
  · cases isFile
  · cases isFile

theorem Matches.isFile (matched : Matches tree root pattern file)
    (unlinked : tree.root.linkCount = 0) (absolute : root.isAbsolute = true) :
    tree.passes Entry.isFile file = .ok true ∧ tree.isFile file = true := by
  obtain ⟨names, entry, -, looked, isFile⟩ := matched.lookup unlinked absolute
  unfold FileTree.passes FileTree.isFile
  rw [looked]
  exact ⟨congrArg Except.ok isFile, isFile⟩

end Glob

/-! ## Where the search starts -/

namespace Ignore

/-- The directory in which the expansion of a pattern starts, as a value. -/
def startOf (tree : FileTree) (root : Path) (pattern : String) : Path :=
  let candidate := root.child (staticPart pattern)
  if Glob.hasMagic pattern.toList then candidate
  else if tree.isFile candidate then candidate.parent else candidate

theorem ends_searchDirectory {σ : Type} {good : σ → Prop} {cause : Failure → Prop}
    (long : tree.lookup (root.child (staticPart pattern)) = .error .tooLong →
      cause (.tooLong (root.child (staticPart pattern)))) :
    Task.Ends tree good (fun path => path = startOf tree root pattern) cause
      (searchDirectory root pattern) := by
  unfold searchDirectory startOf
  dsimp only
  split
  · exact Task.ends_pure rfl
  · refine (ends_isFile long).map ?_
    rintro found ⟨same, -⟩
    rw [same]

theorem areFree_startOf (rootProper : root.IsProper) (pattern : String) :
    FileTree.AreFree (tree.fullNames (startOf tree root pattern)) := by
  have candidateFree : FileTree.AreFree (tree.fullNames (root.child (staticPart pattern))) :=
    FileTree.areFree_fullNames_child rootProper.fullNames_free _
  unfold startOf
  dsimp only
  split
  · exact candidateFree
  · split
    · exact FileTree.areFree_fullNames_parent candidateFree
    · exact candidateFree

/-- A text without wildcards is all static. -/
theorem staticPart_of_plain (plain : Glob.hasMagic literal.toList = false)
    (nonempty : literal ≠ "") :
    staticPart literal = literal := by
  have joined := Text.join_split literal
  have allPlain : ∀ name ∈ Text.split '/' literal, (!Glob.hasMagic name.toList) = true := by
    intro name member
    have subset := Text.toList_subset_join member
    rw [joined] at subset
    unfold Glob.hasMagic at plain ⊢
    rw [List.any_eq_false] at plain
    rw [Bool.not_eq_true', List.any_eq_false]
    exact fun c found => plain c (subset found)
  have fixed : (Text.split '/' literal).takeWhile (fun name => !Glob.hasMagic name.toList) =
      Text.split '/' literal :=
    List.takeWhile_eq_self_iff.mpr allPlain
  have pieces : Text.split '/' literal ≠ [] := by
    simpa [Text.split] using Text.splitChars_ne_nil '/' literal.toList
  have notEmpty : Text.split '/' literal ≠ [""] :=
    Text.splitChars_ne_empty (by simpa using nonempty)
  unfold staticPart
  dsimp only
  rw [fixed, if_neg (by simpa using pieces), if_neg notEmpty, joined]

/-- The search for a file by its path starts in its directory. -/
theorem startOf_of_isFile (plain : Glob.hasMagic literal.toList = false) (nonempty : literal ≠ "")
    (isFile : tree.isFile (root.child literal) = true) :
    startOf tree root literal = (root.child literal).parent := by
  unfold startOf
  rw [staticPart_of_plain plain nonempty]
  dsimp only
  rw [if_neg (by simp [plain]), if_pos isFile]

end Ignore

/-! ## What a session keeps -/

namespace Project

variable {project : Project} {σ : Type} {good : σ → Prop} {cause : Failure → Prop}

theorem ends_fileAt? (unlinked : tree.root.linkCount = 0) {written : Path}
    (long : tree.lookup written = .error .tooLong → cause (.tooLong written)) :
    Task.Ends tree good (fun _ => True) cause (project.fileAt? written) := by
  unfold fileAt?
  refine (Ignore.ends_isFile long).bind ?_
  rintro found ⟨same, -⟩
  rw [same]
  cases isFile : tree.isFile written with
  | false => exact Task.ends_pure trivial
  | true =>
    obtain ⟨names, looked⟩ := FileTree.exists_of_isFile isFile
    have noNull := (FileTree.follow_of_lookup looked).1
    have resolves : Task.Ends tree good (fun _ => True) cause (Task.resolvePath written) :=
      (Task.ends_resolvePath written (by simp [noNull])
        (by simp [FileTree.resolve?_of_unlinked unlinked])).anyhow
    have files : Task.Ends tree good (fun _ => True) cause
        (Session.fileAt project.root written) := resolves.map fun _ _ => trivial
    exact files.map fun _ _ => trivial

/-- What a pattern stands for is known unless one of its paths is too long. -/
theorem ends_expand (unlinked : tree.root.linkCount = 0)
    (long : ∀ written ∈ Glob.pathsFrom tree project.root pattern,
      tree.lookup written = .error .tooLong → cause (.tooLong written)) :
    Task.Ends tree good (project.AreExpanded tree [pattern]) cause (project.expand [pattern]) := by
  have each : ∀ written ∈ [pattern].flatMap (project.pathsOf tree),
      Task.Ends tree good (fun _ => True) cause (project.fileAt? written) := by
    intro written member
    obtain ⟨other, otherMember, found⟩ := List.mem_flatMap.mp member
    rw [List.mem_singleton.mp otherMember] at found
    exact ends_fileAt? unlinked (long written found)
  have ends : Task.Ends tree good (fun _ => True) cause (project.expand [pattern]) := by
    unfold expand
    refine Task.ends_files.bind ?_
    rintro _ rfl
    exact (Task.ends_mapM each).map fun _ _ => trivial
  exact (steady_expand [pattern]).ends_as ends

/-- In a tree without links a file is kept for a pattern that matches it exactly when the project
admits it: which of the paths leads to it does not matter. -/
theorem mem_paths_iff_admits (project : Project) (unlinked : tree.root.linkCount = 0)
    (absolute : project.root.isAbsolute = true)
    (filePlain : ∀ name ∈ file.names, FileTree.IsPlain name)
    (matched : Glob.Matches tree project.root pattern file) {files : List File}
    (expanded : project.AreExpanded tree [pattern] files) :
    file ∈ File.paths files ↔ project.admits file = true := by
  have sameWay : ∀ written ∈ Glob.pathsFrom tree project.root pattern,
      tree.resolve? written = some file →
        project.ignore.ignores written false = project.ignore.ignores file false := by
    intro written member known
    have normal := FileTree.normalNames_of_resolve? unlinked
      (Glob.isAbsolute_of_mem_pathsFrom absolute member) known
    unfold Ignore.RuleSet.ignores Ignore.RuleSet.ignoresBy
    rw [FileTree.normalNames_of_plain filePlain, normal]
    rfl
  rw [expanded.path_iff, admits, Bool.and_eq_true, Bool.not_eq_true', Bool.not_eq_true']
  constructor
  · rintro ⟨written, found⟩
    obtain ⟨other, otherMember, member⟩ := List.mem_flatMap.mp found.matched
    rw [List.mem_singleton.mp otherMember] at member
    exact ⟨found.outside, sameWay written member found.resolved ▸ found.kept⟩
  · rintro ⟨outside, kept⟩
    obtain ⟨written, member, isFile, known⟩ := matched
    have listed : written ∈ [pattern].flatMap (project.pathsOf tree) :=
      List.mem_flatMap.mpr ⟨pattern, List.mem_singleton_self _, member⟩
    exact ⟨written, listed, isFile, known, outside, (sameWay written member known).trans kept⟩

end Project

namespace Invocation

variable {invocation : Invocation} {σ : Type} {good : σ → Prop}

/-- The project with some ignore rules. -/
def projectWith (invocation : Invocation) (base : Path) (set : Ignore.RuleSet) : Project :=
  ⟨base, set, invocation.settings.dependencyDirs⟩

/-- The session of a pattern keeps a file: no directory of installed packages holds it, and the
rules on the way from the root to where the search starts do not ignore it. -/
def Keeps (invocation : Invocation) (tree : FileTree) (base start file : Path) : Prop :=
  ∃ set, Ignore.IsCollected tree base start invocation.settings.extraIgnores set ∧
    (invocation.projectWith base set).admits file = true

/-- Nothing stands in the way of an answer to a pattern in a tree without links: no path that is
looked at holds a null character or is too long, and all lines of the ignore files are patterns. -/
structure IsSound
    (invocation : Invocation) (tree : FileTree) (base start : Path) (pattern : String) : Prop where
  noNull : ∀ path ∈ [invocation.root, base, Ignore.startOf tree base pattern], path.hasNull = false
  searched : tree.lookup (base.child (Ignore.staticPart pattern)) ≠ .error .tooLong
  collected : ∃ set, Ignore.IsCollected tree base start invocation.settings.extraIgnores set
  fits : ∀ written ∈ Glob.pathsFrom tree base pattern, tree.lookup written ≠ .error .tooLong

/-- The answer to a pattern: what it stands for in the project of the ignore files on the way. -/
structure IsAnswer
    (invocation : Invocation) (tree : FileTree) (base start : Path) (pattern : String)
    (files : List File) : Prop where
  noNull : ∀ path ∈ [invocation.root, base], path.hasNull = false
  expanded : ∃ set, Ignore.IsCollected tree base start invocation.settings.extraIgnores set ∧
    (invocation.projectWith base set).AreExpanded tree [pattern] files

/-- The files that a pattern stands for in a session of its own. -/
def filesOf (invocation : Invocation) (pattern : String) : Task σ (List File) :=
  invocation.inSession invocation.root [pattern] fun project => project.expand [pattern]

theorem IsSound.not_of_hasNull {path : Path}
    (member : path ∈ [invocation.root, base, Ignore.startOf tree base pattern])
    (hasNull : path.hasNull = true) :
    ¬invocation.IsSound tree base start pattern := by
  intro sound
  rw [sound.noNull path member] at hasNull
  cases hasNull

/-- Opening a project fails only where the invocation is not sound. -/
theorem ends_project (unlinked : tree.root.linkCount = 0) (baseProper : base.IsProper)
    (started : tree.resolve? (Ignore.startOf tree base pattern) = some start) :
    Task.Ends tree good
      (fun project => base.hasNull = false ∧
        ∃ set, Ignore.IsCollected tree base start invocation.settings.extraIgnores set ∧
          project = invocation.projectWith base set)
      (fun _ => ¬invocation.IsSound tree base start pattern)
      (invocation.project base [pattern]) := by
  have searches : ∀ other ∈ [pattern], Task.Ends tree good
      (fun path => path = Ignore.startOf tree base other)
      (fun _ => ¬invocation.IsSound tree base start pattern)
      (Ignore.searchDirectory base other) := by
    intro other member
    rw [List.mem_singleton.mp member]
    exact Ignore.ends_searchDirectory fun long sound => sound.searched long
  have collects : Task.Ends tree good
      (fun set => base.hasNull = false ∧
        Ignore.IsCollected tree base start invocation.settings.extraIgnores set)
      (fun _ => ¬invocation.IsSound tree base start pattern)
      (Ignore.collect [Ignore.startOf tree base pattern] base
        invocation.settings.extraIgnores) := by
    have baseKnown := FileTree.resolve?_of_isProper unlinked baseProper
    refine Ignore.ends_collect baseKnown started ?_ ?_ ?_
    · exact fun path member => IsSound.not_of_hasNull (List.mem_cons_of_mem _ member)
    · rintro scope member long sound
      obtain ⟨set, collected⟩ := sound.collected
      exact collected.reachable scope member long
    · rintro fault faulty sound
      obtain ⟨set, collected⟩ := sound.collected
      rw [collected.compiled] at faulty
      cases faulty
  unfold project
  refine (Task.ends_mapM searches).bind fun searched each => ?_
  obtain rfl : searched = [Ignore.startOf tree base pattern] := each.eq_map fun _ _ same => same
  refine collects.map ?_
  rintro set ⟨noNull, collected⟩
  exact ⟨noNull, set, collected, rfl⟩

/-- A session answers to a pattern unless something stands in the way. -/
theorem ends_filesOf (unlinked : tree.root.linkCount = 0)
    (known : tree.resolve? invocation.root = some base) (baseProper : base.IsProper)
    (started : tree.resolve? (Ignore.startOf tree base pattern) = some start) :
    Task.Ends tree good (invocation.IsAnswer tree base start pattern)
      (fun _ => ¬invocation.IsSound tree base start pattern) (invocation.filesOf pattern) := by
  unfold filesOf inSession
  refine (Task.ends_resolvePath invocation.root (IsSound.not_of_hasNull (by simp))
    (by simp [known])).bind ?_
  rintro found ⟨rootNoNull, foundKnown⟩
  obtain rfl : base = found := Option.some.inj (known.symm.trans foundKnown)
  have answers : Task.Ends tree (fun _ : Session => True)
      (invocation.IsAnswer tree base start pattern)
      (fun _ => ¬invocation.IsSound tree base start pattern)
      (do (← invocation.project base [pattern]).expand [pattern]) := by
    refine (ends_project unlinked baseProper started).bind ?_
    rintro _ ⟨baseNoNull, set, collected, rfl⟩
    refine (Project.ends_expand unlinked fun written member long sound => ?_).imp ?_ fun _ => id
    · exact sound.fits written member long
    · exact fun files expanded => ⟨by simp [rootNoNull, baseNoNull], set, collected, expanded⟩
  exact answers.withState trivial

theorem keeps_iff_admits {set : Ignore.RuleSet}
    (collected : Ignore.IsCollected tree base start invocation.settings.extraIgnores set) :
    invocation.Keeps tree base start file ↔
      (invocation.projectWith base set).admits file = true := by
  constructor
  · rintro ⟨other, otherCollected, admits⟩
    obtain rfl : set = other :=
      Except.ok.inj (collected.compiled.symm.trans otherCollected.compiled)
    exact admits
  · exact fun admits => ⟨set, collected, admits⟩

theorem IsAnswer.mem_paths_iff {files : List File}
    (answer : invocation.IsAnswer tree base start pattern files)
    (unlinked : tree.root.linkCount = 0) (baseProper : base.IsProper)
    (filePlain : ∀ name ∈ file.names, FileTree.IsPlain name)
    (matched : Glob.Matches tree base pattern file) :
    file ∈ File.paths files ↔ invocation.Keeps tree base start file := by
  obtain ⟨set, collected, expanded⟩ := answer.expanded
  rw [keeps_iff_admits collected]
  exact (invocation.projectWith base set).mem_paths_iff_admits unlinked baseProper.isAbsolute
    filePlain matched expanded

/-- A session answers when nothing stands in the way. -/
theorem IsSound.exists_answer (sound : invocation.IsSound tree base start pattern)
    (unlinked : tree.root.linkCount = 0) (known : tree.resolve? invocation.root = some base)
    (baseProper : base.IsProper)
    (started : tree.resolve? (Ignore.startOf tree base pattern) = some start)
    (journal : Journal σ) :
    ∃ files, (invocation.filesOf pattern tree journal).1 = .ok files ∧
      invocation.IsAnswer tree base start pattern files := by
  have answers : Task.Ends tree (fun _ : σ => True) _ _ (invocation.filesOf pattern) :=
    ends_filesOf unlinked known baseProper started
  exact answers.exists_answer (fun _ unsound => unsound sound) trivial

/-- Sessions that start to search in places whose scopes differ silently keep the same. -/
theorem Keeps.of_silently {first second : Path} (keeps : invocation.Keeps tree base first file)
    (silently : Ignore.DifferSilently tree base file first second) (baseProper : base.IsProper)
    (firstProper : first.IsProper) :
    invocation.Keeps tree base second file := by
  obtain ⟨set, collected, admits⟩ := keeps
  obtain ⟨other, otherCollected⟩ := collected.exists_other silently
  refine ⟨other, otherCollected, ?_⟩
  unfold Project.admits at admits ⊢
  have sameVerdict : set.ignores file false = other.ignores file false :=
    collected.ignores_eq otherCollected silently baseProper firstProper
  have sameRules : (invocation.projectWith base other).ignore.ignores file false =
      (invocation.projectWith base set).ignore.ignores file false := sameVerdict.symm
  rw [sameRules]
  exact admits

/-! ## The path of a file -/

section PathOfFile

variable {names : List String}

theorem ne_empty_of_named
    (below : Ignore.LiesBelow base file names) (named : base.child literal = file) :
    literal ≠ "" := by
  rintro rfl
  have unchanged : (base.child "").names = base.names := List.append_nil base.names
  rw [named, below.names] at unchanged
  exact below.nonempty (List.append_right_eq_self.mp unchanged)

/-- The path of a file that a pattern matches leads to the file too. -/
theorem matches_path (unlinked : tree.root.linkCount = 0) (below : Ignore.LiesBelow base file names)
    (matched : Glob.Matches tree base pattern file) (plain : Glob.hasMagic literal.toList = false)
    (named : base.child literal = file) :
    Glob.Matches tree base literal file := by
  have isFile := (matched.isFile unlinked below.rootProper.isAbsolute).1
  refine ⟨file, ?_, isFile, FileTree.resolve?_of_isProper unlinked below.proper⟩
  rw [Glob.pathsFrom_of_plain plain, named]
  exact List.mem_singleton_self file

/-- The search for the path of a file starts in its directory. -/
theorem startOf_path (unlinked : tree.root.linkCount = 0) (below : Ignore.LiesBelow base file names)
    (matched : Glob.Matches tree base pattern file) (plain : Glob.hasMagic literal.toList = false)
    (named : base.child literal = file) :
    Ignore.startOf tree base literal = file.parent := by
  have isFile := (matched.isFile unlinked below.rootProper.isAbsolute).2
  rw [← named] at isFile
  rw [Ignore.startOf_of_isFile plain (ne_empty_of_named below named) isFile, named]

/-- When there is an answer to a pattern that matches a file, nothing stands in the way of an answer
to the path of the file. -/
theorem IsAnswer.isSound_path {files : List File}
    (answer : invocation.IsAnswer tree base start pattern files)
    (silently : Ignore.DifferSilently tree base file start file.parent)
    (unlinked : tree.root.linkCount = 0) (below : Ignore.LiesBelow base file names)
    (matched : Glob.Matches tree base pattern file) (plain : Glob.hasMagic literal.toList = false)
    (named : base.child literal = file) :
    invocation.IsSound tree base file.parent literal := by
  obtain ⟨fileNames, entry, -, looked, -⟩ := matched.lookup unlinked below.rootProper.isAbsolute
  obtain ⟨set, collected, -⟩ := answer.expanded
  refine ⟨?_, ?_, collected.exists_other silently, ?_⟩
  · have noNull := answer.noNull
    simp only [List.forall_mem_cons] at noNull ⊢
    rw [startOf_path unlinked below matched plain named]
    exact ⟨noNull.1, noNull.2.1, (FileTree.resolve?_parent_of_lookup looked).1, by simp⟩
  · rw [Ignore.staticPart_of_plain plain (ne_empty_of_named below named), named, looked]
    simp
  · rw [Glob.pathsFrom_of_plain plain, named, List.forall_mem_singleton, looked]
    simp

end PathOfFile

/-- In a project without links a session for a pattern goes by the ignore files on the way from the
root to where the search for the pattern starts, and one for the path of a file by those on the way
to its directory.  When both ways differ only in ignore files that do not speak of the file, then a
session for the path answers if one for a pattern that matches the file does, and either both keep
the file or neither does. -/
theorem kept_under_either_name (invocation : Invocation) {names : List String}
    (unlinked : tree.root.linkCount = 0) (known : tree.resolve? invocation.root = some base)
    (below : Ignore.LiesBelow base file names) (matched : Glob.Matches tree base pattern file)
    (started : tree.resolve? (Ignore.startOf tree base pattern) = some start)
    (plain : Glob.hasMagic literal.toList = false) (named : base.child literal = file)
    (journal other : Journal σ) :
    (∀ files, (invocation.filesOf pattern tree journal).1 = .ok files →
      (file ∈ File.paths files ↔ invocation.Keeps tree base start file)) ∧
    (∀ files, (invocation.filesOf literal tree other).1 = .ok files →
      (file ∈ File.paths files ↔ invocation.Keeps tree base file.parent file)) ∧
    (Ignore.DifferSilently tree base file start file.parent →
      ∀ files, (invocation.filesOf pattern tree journal).1 = .ok files →
        ∃ others, (invocation.filesOf literal tree other).1 = .ok others ∧
          (file ∈ File.paths files ↔ file ∈ File.paths others)) := by
  have baseProper := below.rootProper
  have parentProper : file.parent.IsProper := below.proper.parent
  have startProper : start.IsProper :=
    FileTree.isProper_of_resolve? (Ignore.areFree_startOf baseProper pattern) started
  have literalMatches := matches_path unlinked below matched plain named
  have literalStarted : tree.resolve? (Ignore.startOf tree base literal) = some file.parent := by
    rw [startOf_path unlinked below matched plain named]
    exact FileTree.resolve?_of_isProper unlinked parentProper
  have answers : Task.Ends tree (fun _ : σ => True) _ _ (invocation.filesOf pattern) :=
    ends_filesOf unlinked known baseProper started
  have literalAnswers : Task.Ends tree (fun _ : σ => True) _ _ (invocation.filesOf literal) :=
    ends_filesOf unlinked known baseProper literalStarted
  have keptFor : ∀ files, (invocation.filesOf pattern tree journal).1 = .ok files →
      (file ∈ File.paths files ↔ invocation.Keeps tree base start file) := by
    intro files answered
    have answer := answers.kind_of_answer trivial answered
    exact answer.mem_paths_iff unlinked baseProper below.proper.plain matched
  have keptForLiteral : ∀ files, (invocation.filesOf literal tree other).1 = .ok files →
      (file ∈ File.paths files ↔ invocation.Keeps tree base file.parent file) := by
    intro files answered
    have answer := literalAnswers.kind_of_answer trivial answered
    exact answer.mem_paths_iff unlinked baseProper below.proper.plain literalMatches
  refine ⟨keptFor, keptForLiteral, fun silently files answered => ?_⟩
  have answer := answers.kind_of_answer trivial answered
  have sound := answer.isSound_path silently unlinked below matched plain named
  obtain ⟨others, literalAnswered, -⟩ :=
    sound.exists_answer unlinked known baseProper literalStarted other
  refine ⟨others, literalAnswered, ?_⟩
  rw [keptFor files answered, keptForLiteral others literalAnswered]
  constructor
  · exact fun keeps => keeps.of_silently silently baseProper startProper
  · exact fun keeps => keeps.of_silently silently.symm baseProper parentProper

/-- A file tree with two files below two directories, the inner one of which has an ignore file for
one of them. -/
def nestedTree : FileTree :=
  ⟨.directory [("src", .directory [("sub", .directory
    [(".gitignore", .file "x.md\n".toUTF8 none), ("x.md", .file .empty none),
      ("y.md", .file .empty none)])])], []⟩

/-- A file of the nested tree. -/
def nestedFile (name : String) : Path := .ofRoot ["src", "sub", name]

/-- A pattern for a file of the nested tree; the search for it starts above the ignore file. -/
def nestedPattern (name : String) : String := "src/*/" ++ name

theorem pathsFrom_nested :
    ∀ name ∈ ["x.md", "y.md"],
      Glob.pathsFrom nestedTree (.ofRoot []) (nestedPattern name) = [nestedFile name] := by
  decide +kernel

theorem isFile_nested :
    ∀ name ∈ ["x.md", "y.md"], nestedTree.passes Entry.isFile (nestedFile name) = .ok true := by
  decide

theorem resolve?_nested :
    ∀ name ∈ ["x.md", "y.md"],
      nestedTree.resolve? (nestedFile name) = some (nestedFile name) ∧
        nestedTree.resolve? (Ignore.startOf nestedTree (.ofRoot []) (nestedPattern name)) =
          some (.ofRoot ["src"]) := by
  decide

theorem matches_nested {name : String} (listed : name ∈ ["x.md", "y.md"]) :
    Glob.Matches nestedTree (.ofRoot []) (nestedPattern name) (nestedFile name) :=
  ⟨nestedFile name, by simp [pathsFrom_nested name listed], isFile_nested name listed,
    (resolve?_nested name listed).1⟩

theorem liesBelow_nested {name : String} (listed : name ∈ ["x.md", "y.md"]) :
    Ignore.LiesBelow (.ofRoot []) (nestedFile name) ["src", "sub", name] := by
  have proper : ∀ name ∈ ["x.md", "y.md"], (["src", "sub", name].all fun name =>
      name != ".." && Path.isKept name && !name.toList.contains '/') = true := by decide
  exact ⟨Ignore.isProper_ofRoot rfl, Ignore.isProper_ofRoot (proper name listed), rfl, by simp⟩

theorem tested_nested :
    ∀ scope ∈ [Path.ofRoot [], .ofRoot ["src"], .ofRoot ["src", "sub"]],
      nestedTree.passes Entry.isFile (scope.child Ignore.fileName) =
        .ok (nestedTree.isFile (scope.child Ignore.fileName)) := by
  decide

theorem scopes_nested_outer :
    Ignore.scopes (.ofRoot []) [.ofRoot ["src"]] = [.ofRoot [], .ofRoot ["src"]] := by
  have below : Ignore.scopesBelow (.ofRoot []) [.ofRoot ["src"]] =
      [.ofRoot [], .ofRoot ["src"]] := rfl
  rw [Ignore.scopes_eq_append, below, List.mergeSort_of_pairwise (by decide)]
  rfl

theorem scopes_nested_inner :
    Ignore.scopes (.ofRoot []) [.ofRoot ["src", "sub"]] =
      [.ofRoot [], .ofRoot ["src"], .ofRoot ["src", "sub"]] := by
  have below : Ignore.scopesBelow (.ofRoot []) [.ofRoot ["src", "sub"]] =
      [.ofRoot [], .ofRoot ["src", "sub"], .ofRoot ["src"]] := rfl
  have rootFirst : Ignore.scopeLe (.ofRoot []) (.ofRoot ["src", "sub"]) = true := rfl
  have rootBeforeOuter : Ignore.scopeLe (.ofRoot []) (.ofRoot ["src"]) = true := rfl
  have innerLast : Ignore.scopeLe (.ofRoot ["src", "sub"]) (.ofRoot ["src"]) = false := rfl
  have sorted : [Path.ofRoot [], .ofRoot ["src", "sub"], .ofRoot ["src"]].mergeSort
      Ignore.scopeLe = [.ofRoot [], .ofRoot ["src"], .ofRoot ["src", "sub"]] := by
    simp [List.mergeSort, List.MergeSort.Internal.splitInTwo, rootFirst, rootBeforeOuter, innerLast]
  rw [Ignore.scopes_eq_append, below, sorted]
  rfl

/-- Above the ignore file both files are kept. -/
theorem exists_collected_outer {name : String} (listed : name ∈ ["x.md", "y.md"]) :
    ∃ set, Ignore.IsCollected nestedTree (.ofRoot []) (.ofRoot ["src"])
      atRoot.settings.extraIgnores set ∧
        (atRoot.projectWith (.ofRoot []) set).admits (nestedFile name) = true := by
  have admitted : ∀ name ∈ ["x.md", "y.md"],
      (Ignore.RuleSet.compile
        ([Path.ofRoot [], .ofRoot ["src"]].flatMap (Ignore.rulesIn nestedTree)) (.ofRoot [])
          atRoot.settings.extraIgnores).toOption.map
            (fun set => (atRoot.projectWith (.ofRoot []) set).admits (nestedFile name)) =
        some true := by decide +kernel
  refine Ignore.exists_isCollected scopes_nested_outer (fun scope member => ?_)
    (admitted name listed)
  exact tested_nested scope (List.mem_of_mem_dropLast member)

/-- With the ignore file the first file is not kept. -/
theorem exists_collected_inner :
    ∃ set, Ignore.IsCollected nestedTree (.ofRoot []) (.ofRoot ["src", "sub"])
      atRoot.settings.extraIgnores set ∧
        (atRoot.projectWith (.ofRoot []) set).admits (nestedFile "x.md") = false :=
  Ignore.exists_isCollected scopes_nested_inner tested_nested (by decide +kernel)

/-- A session for one of the patterns answers with the file. -/
theorem filesOf_nested_pattern {name : String} (listed : name ∈ ["x.md", "y.md"]) :
    ∃ files, (atRoot.filesOf (nestedPattern name)).outcomeFrom nestedTree () = .ok files ∧
      nestedFile name ∈ File.paths files := by
  have below := liesBelow_nested listed
  obtain ⟨set, collected, admits⟩ := exists_collected_outer listed
  have noNull : ∀ name ∈ ["x.md", "y.md"],
      ∀ path ∈ [atRoot.root, .ofRoot [],
        Ignore.startOf nestedTree (.ofRoot []) (nestedPattern name)],
        path.hasNull = false := by decide
  have searched : ∀ name ∈ ["x.md", "y.md"],
      nestedTree.passes Entry.isFile
        ((Path.ofRoot []).child (Ignore.staticPart (nestedPattern name))) = .ok false := by
    decide
  have sound : atRoot.IsSound nestedTree (.ofRoot []) (.ofRoot ["src"]) (nestedPattern name) := by
    refine ⟨noNull name listed, (FileTree.isFile_of_passes (searched name listed)).2,
      ⟨set, collected⟩, ?_⟩
    rw [pathsFrom_nested name listed, List.forall_mem_singleton]
    exact (FileTree.isFile_of_passes (isFile_nested name listed)).2
  obtain ⟨files, answered, answer⟩ := sound.exists_answer rfl rfl below.rootProper
    (resolve?_nested name listed).2 ⟨(), []⟩
  refine ⟨files, answered, ?_⟩
  exact (answer.mem_paths_iff rfl below.rootProper below.proper.plain (matches_nested listed)).mpr
    ⟨set, collected, admits⟩

/-- A session for the path of the first file answers without it. -/
theorem filesOf_nested_literal :
    ∃ files, (atRoot.filesOf "src/sub/x.md").outcomeFrom nestedTree () = .ok files ∧
      nestedFile "x.md" ∉ File.paths files := by
  have listed : "x.md" ∈ ["x.md", "y.md"] := by simp
  have below := liesBelow_nested listed
  obtain ⟨set, collected, refused⟩ := exists_collected_inner
  have isFile := isFile_nested "x.md" listed
  have started : nestedTree.resolve? (Ignore.startOf nestedTree (.ofRoot []) "src/sub/x.md") =
      some (.ofRoot ["src", "sub"]) := rfl
  have paths : Glob.pathsFrom nestedTree (.ofRoot []) "src/sub/x.md" = [nestedFile "x.md"] := rfl
  have static : (Path.ofRoot []).child (Ignore.staticPart "src/sub/x.md") = nestedFile "x.md" :=
    rfl
  have sound : atRoot.IsSound nestedTree (.ofRoot []) (.ofRoot ["src", "sub"]) "src/sub/x.md" := by
    refine ⟨by decide, ?_, ⟨set, collected⟩, ?_⟩
    · rw [static]
      exact (FileTree.isFile_of_passes isFile).2
    · rw [paths, List.forall_mem_singleton]
      exact (FileTree.isFile_of_passes isFile).2
  obtain ⟨files, answered, answer⟩ := sound.exists_answer rfl rfl below.rootProper started ⟨(), []⟩
  have matched : Glob.Matches nestedTree (.ofRoot []) "src/sub/x.md" (nestedFile "x.md") :=
    ⟨_, by simp [paths], isFile, (resolve?_nested "x.md" listed).1⟩
  refine ⟨files, answered, ?_⟩
  rw [answer.mem_paths_iff rfl below.rootProper below.proper.plain matched,
    keeps_iff_admits collected, refused]
  exact Bool.false_ne_true

/-- The ignore file of the nested tree does not speak of the second file. -/
theorem differSilently_nested :
    Ignore.DifferSilently nestedTree (.ofRoot []) (nestedFile "y.md") (.ofRoot ["src"])
      (nestedFile "y.md").parent := by
  have outer : Ignore.scopesBelow (.ofRoot []) [.ofRoot ["src"]] =
      [.ofRoot [], .ofRoot ["src"]] := rfl
  have inner : Ignore.scopesBelow (.ofRoot []) [(nestedFile "y.md").parent] =
      [.ofRoot [], .ofRoot ["src", "sub"], .ofRoot ["src"]] := rfl
  intro scope differs
  rw [outer, inner] at differs
  simp only [List.mem_cons, List.not_mem_nil, or_false] at differs
  obtain rfl : scope = .ofRoot ["src", "sub"] := by tauto
  have tested := tested_nested (.ofRoot ["src", "sub"]) (by simp)
  exact ⟨(FileTree.isFile_of_passes tested).2, by decide +kernel⟩

theorem y_kept_under_both_names :
    ∃ files others, (atRoot.filesOf "src/*/y.md").outcomeFrom nestedTree () = .ok files ∧
      (atRoot.filesOf "src/sub/y.md").outcomeFrom nestedTree () = .ok others ∧
        nestedFile "y.md" ∈ File.paths files ∧ nestedFile "y.md" ∈ File.paths others := by
  have listed : "y.md" ∈ ["x.md", "y.md"] := by simp
  obtain ⟨files, answered, member⟩ := filesOf_nested_pattern listed
  have named : (Path.ofRoot []).child "src/sub/y.md" = nestedFile "y.md" := by decide
  obtain ⟨-, -, agree⟩ := atRoot.kept_under_either_name rfl rfl
    (liesBelow_nested listed) (matches_nested listed) (resolve?_nested "y.md" listed).2 (by decide)
    named ⟨(), []⟩ ⟨(), []⟩
  obtain ⟨others, literalAnswered, same⟩ := agree differSilently_nested files answered
  exact ⟨files, others, answered, literalAnswered, member, same.mp member⟩

/-- How a file is named can decide: the ignore file in its directory counts for its path, and not
for a pattern whose first names lead to a directory above. -/
theorem not_kept_alike :
    ¬∀ (invocation : Invocation) (tree : FileTree) (base file : Path) (names : List String)
      (pattern literal : String) (files others : List File),
      tree.root.linkCount = 0 → tree.resolve? invocation.root = some base →
        Ignore.LiesBelow base file names → Glob.Matches tree base pattern file →
          Glob.hasMagic literal.toList = false → base.child literal = file →
            (invocation.filesOf pattern).outcomeFrom tree () = .ok files →
              (invocation.filesOf literal).outcomeFrom tree () = .ok others →
                (file ∈ File.paths files ↔ file ∈ File.paths others) := by
  intro alike
  have listed : "x.md" ∈ ["x.md", "y.md"] := by simp
  obtain ⟨files, answered, member⟩ := filesOf_nested_pattern listed
  obtain ⟨others, literalAnswered, absent⟩ := filesOf_nested_literal
  have named : (Path.ofRoot []).child "src/sub/x.md" = nestedFile "x.md" := by decide
  have same := alike atRoot nestedTree _ _ _ _ _ files others rfl rfl
    (liesBelow_nested listed) (matches_nested listed) (by decide) named answered literalAnswered
  exact absent (same.mp member)

end Invocation
end ModuleAtlas
