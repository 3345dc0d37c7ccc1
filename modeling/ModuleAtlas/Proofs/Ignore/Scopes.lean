import ModuleAtlas.Ignore.Collect
import ModuleAtlas.Proofs.FileTree.Names
import ModuleAtlas.Proofs.Task.Agreement

/-!
# The scopes of ignore files

Which ignore files matter, and in which order their rules come, depends on the set of directories
that are searched and on nothing else: scopes are sorted, and no two of them have the same place in
the order.
-/

namespace ModuleAtlas

/-! ## Sorting -/

theorem nodup_eraseDups {α : Type} [BEq α] [LawfulBEq α] :
    ∀ elements : List α, elements.eraseDups.Nodup
  | [] => by simp
  | first :: rest => by
    rw [List.eraseDups_cons, List.nodup_cons, List.mem_eraseDups]
    exact ⟨by simp, nodup_eraseDups _⟩
termination_by elements => elements.length
decreasing_by
  have shorter := List.length_filter_le (fun element => !element == first) rest
  simp only [List.length_cons]
  omega

/-- Lists of the same elements without repetition are sorted to the same list, when no two of the
elements have the same place in the order. -/
theorem SameElements.mergeSort_eq {α : Type} {le : α → α → Bool} {first second : List α}
    (same : SameElements first second) (firstNodup : first.Nodup) (secondNodup : second.Nodup)
    (transitive : ∀ a b c, le a b = true → le b c = true → le a c = true)
    (total : ∀ a b, (le a b || le b a) = true)
    (antisymmetric : ∀ a ∈ first, ∀ b ∈ first, le a b = true → le b a = true → a = b) :
    first.mergeSort le = second.mergeSort le := by
  have permutes : (first.mergeSort le).Perm (second.mergeSort le) :=
    (List.mergeSort_perm first le).trans
      (((List.perm_ext_iff_of_nodup firstNodup secondNodup).mpr same).trans
        (List.mergeSort_perm second le).symm)
  refine permutes.eq_of_pairwise ?_ (List.pairwise_mergeSort transitive total first)
    (List.pairwise_mergeSort transitive total second)
  intro a b aMember bMember
  exact antisymmetric a (List.mem_mergeSort.mp aMember) b
    ((same b).mpr (List.mem_mergeSort.mp bMember))

/-! ## Proper paths -/

namespace FileTree

variable {tree : FileTree}

theorem areFree_fullNames_append {base path : Path} (baseFree : AreFree (tree.fullNames base))
    (free : AreFree path.names) :
    AreFree (tree.fullNames (base.append path)) := by
  unfold Path.append
  split
  · rename_i absolute
    rw [fullNames, if_pos absolute]
    exact free
  · have full : tree.fullNames ⟨base.anchor, base.names ++ path.names⟩ =
        tree.fullNames base ++ path.names := by
      unfold fullNames Path.isAbsolute
      split <;> simp
    rw [full]
    exact areFree_append.mpr ⟨baseFree, free⟩

theorem areFree_fullNames_child {base : Path} (baseFree : AreFree (tree.fullNames base))
    (text : String) :
    AreFree (tree.fullNames (base.child text)) :=
  areFree_fullNames_append baseFree (areFree_ofText text)

theorem areFree_fullNames_parent {path : Path} (free : AreFree (tree.fullNames path)) :
    AreFree (tree.fullNames path.parent) := by
  intro name member
  refine free name ?_
  revert member
  unfold fullNames Path.parent Path.isAbsolute
  dsimp only
  split
  · exact List.mem_of_mem_dropLast
  · simp only [List.mem_append]
    exact Or.imp_right List.mem_of_mem_dropLast

end FileTree

namespace Path

theorem IsProper.take {path : Path} (proper : path.IsProper) (length : Nat) :
    IsProper ⟨path.anchor, path.names.take length⟩ :=
  ⟨proper.anchor, fun name member => proper.plain name (List.mem_of_mem_take member),
    fun name member => proper.free name (List.mem_of_mem_take member)⟩

theorem IsProper.fullNames_free {tree : FileTree} {path : Path} (proper : path.IsProper) :
    FileTree.AreFree (tree.fullNames path) := by
  unfold FileTree.fullNames isAbsolute
  rw [proper.anchor]
  exact proper.free

/-- Proper paths with as many names are told apart by their texts. -/
theorem IsProper.eq_of_text_eq {first second : Path} (firstProper : first.IsProper)
    (secondProper : second.IsProper) (sameLength : first.names.length = second.names.length)
    (sameText : first.text = second.text) :
    first = second := by
  obtain ⟨firstAnchor, firstNames⟩ := first
  obtain ⟨secondAnchor, secondNames⟩ := second
  obtain ⟨rfl, _, firstFree⟩ := firstProper
  obtain ⟨rfl, _, secondFree⟩ := secondProper
  dsimp only at *
  have joined : Text.join "/" firstNames = Text.join "/" secondNames := by
    have chars := congrArg String.toList sameText
    rw [← String.toList_inj]
    simpa [text, anchorText] using chars
  cases firstNames with
  | nil =>
    rw [List.length_eq_zero_iff.mp sameLength.symm]
  | cons name rest =>
    have secondSome : secondNames ≠ [] := by
      rintro rfl
      cases sameLength
    have firstSplit : Text.split '/' (Text.join "/" (name :: rest)) = name :: rest :=
      Text.split_join (List.cons_ne_nil _ _) firstFree
    have secondSplit : Text.split '/' (Text.join "/" secondNames) = secondNames :=
      Text.split_join secondSome secondFree
    rw [← firstSplit, joined, secondSplit]

end Path

namespace Ignore

variable {tree : FileTree} {root : Path} {first second : List Path}

/-! ## The order of scopes -/

theorem scopeLe_iff {a b : Path} :
    scopeLe a b = true ↔ a.names.length < b.names.length ∨
      a.names.length = b.names.length ∧ a.text ≤ b.text := by
  unfold scopeLe
  split
  · rename_i equal
    simp [equal]
  · rename_i different
    simp [different]

theorem scopeLe_trans (a b c : Path) (before : scopeLe a b = true) (after : scopeLe b c = true) :
    scopeLe a c = true := by
  rw [scopeLe_iff] at *
  rcases before with shorter | ⟨same, below⟩ <;> rcases after with longer | ⟨again, above⟩
  · exact .inl (Nat.lt_trans shorter longer)
  · exact .inl (again ▸ shorter)
  · exact .inl (same ▸ longer)
  · exact .inr ⟨same.trans again, String.le_trans below above⟩

theorem scopeLe_total (a b : Path) : (scopeLe a b || scopeLe b a) = true := by
  rw [Bool.or_eq_true, scopeLe_iff, scopeLe_iff]
  rcases Nat.lt_trichotomy a.names.length b.names.length with shorter | same | longer
  · exact .inl (.inl shorter)
  · rcases String.le_total a.text b.text with below | above
    · exact .inl (.inr ⟨same, below⟩)
    · exact .inr (.inr ⟨same.symm, above⟩)
  · exact .inr (.inl longer)

/-- The order of scopes tells any two of them apart. -/
theorem scopeLe_antisymm {a b : Path} (aProper : a.IsProper) (bProper : b.IsProper)
    (below : scopeLe a b = true) (above : scopeLe b a = true) :
    a = b := by
  rw [scopeLe_iff] at below above
  have sameLength : a.names.length = b.names.length := by omega
  refine aProper.eq_of_text_eq bProper sameLength (String.le_antisymm ?_ ?_)
  · rcases below with shorter | ⟨_, texts⟩
    · omega
    · exact texts
  · rcases above with shorter | ⟨_, texts⟩
    · omega
    · exact texts

theorem isProper_of_mem_upTo {path scope : Path} (proper : path.IsProper)
    (member : scope ∈ upTo root path) :
    scope.IsProper := by
  obtain ⟨steps, _, rfl⟩ := List.mem_map.mp member
  exact proper.take _

/-- The scopes from the root down to searched directories, each once. -/
def scopesBelow (root : Path) (searched : List Path) : List Path :=
  (root :: searched.flatMap fun path =>
    if Path.isWithin root path then upTo root path else []).eraseDups

theorem scopes_eq_append (root : Path) (searched : List Path) :
    scopes root searched = above root ++ (scopesBelow root searched).mergeSort scopeLe := rfl

theorem isProper_of_mem_scopesBelow {searched : List Path} (rootProper : root.IsProper)
    (proper : ∀ path ∈ searched, path.IsProper)
    {scope : Path} (member : scope ∈ scopesBelow root searched) :
    scope.IsProper := by
  rcases List.mem_cons.mp (List.mem_eraseDups.mp member) with rfl | found
  · exact rootProper
  · obtain ⟨path, pathMember, above⟩ := List.mem_flatMap.mp found
    split at above
    · exact isProper_of_mem_upTo (proper path pathMember) above
    · cases above

/-- The scopes for searched directories depend on which these are and on nothing else. -/
theorem scopes_eq (same : SameElements first second) (rootProper : root.IsProper)
    (proper : ∀ path ∈ first, path.IsProper) :
    scopes root first = scopes root second := by
  have listed : SameElements (scopesBelow root first) (scopesBelow root second) := by
    intro scope
    have inside := same.flatMap (fun path =>
      if Path.isWithin root path then upTo root path else []) scope
    simp only [scopesBelow, List.mem_eraseDups, List.mem_cons, inside]
  rw [scopes_eq_append, scopes_eq_append, listed.mergeSort_eq (nodup_eraseDups _)
    (nodup_eraseDups _) scopeLe_trans scopeLe_total]
  intro a aMember b bMember
  exact scopeLe_antisymm (isProper_of_mem_scopesBelow rootProper proper aMember)
    (isProper_of_mem_scopesBelow rootProper proper bMember)

/-! ## Collecting -/

section Collecting

variable {σ : Type} {good : σ → Prop}

/-- Which files are found does not depend on the order of the searched paths. -/
theorem agree_findFiles (same : SameElements first second) (rootProper : root.IsProper)
    (free : ∀ path ∈ first, FileTree.AreFree (tree.fullNames path)) :
    Task.Agree tree good Eq (findFiles first root) (findFiles second root) := by
  unfold findFiles
  refine (Task.agree_mapM Task.steady_resolvePath same).bind ?_
  rintro resolved others ⟨sameResolved, known⟩
  have proper : ∀ path ∈ resolved, path.IsProper := by
    intro path member
    obtain ⟨written, writtenMember, _, writtenKnown⟩ := known path member
    exact FileTree.isProper_of_resolve? (free written writtenMember) writtenKnown
  rw [scopes_eq sameResolved rootProper proper]
  have steady : Task.Steady tree good (fun _ => True)
      (((scopes root others).map (·.child fileName)).filterM Task.isFile) :=
    Task.steady_filterM fun path _ => (Task.steady_isFile path).anyhow
  exact steady.agree.mono fun _ _ related => related.1

theorem steady_readRules (file : Path) :
    Task.Steady tree good (fun _ => True) (readRules file) := by
  unfold readRules
  refine Task.steady_files.bind fun found same => ?_
  split
  · exact Task.steady_pure trivial
  · exact (Task.steady_note _).bind fun _ _ => Task.steady_pure trivial

theorem steady_compiled (files : List Path) (base : Path) (extra : List String) :
    Task.Steady tree good (fun _ => True) (do
      let rules ← files.mapM readRules
      match RuleSet.compile rules.flatten base extra with
      | .ok set => return set
      | .error fault => Task.fail (.ignorePattern fault)) := by
  refine (Task.steady_mapM fun file _ => steady_readRules file).bind fun rules _ => ?_
  split
  · exact Task.steady_pure trivial
  · exact Task.steady_fail _

/-- The rules that are collected depend on which directories are searched and on nothing else. -/
theorem agree_collect (same : SameElements first second)
    (rootFree : FileTree.AreFree (tree.fullNames root))
    (free : ∀ path ∈ first, FileTree.AreFree (tree.fullNames path)) (extra : List String) :
    Task.Agree tree good Eq (collect first root extra) (collect second root extra) := by
  unfold collect
  refine (Task.steady_resolvePath root).agree.bind ?_
  rintro base _ ⟨rfl, _, known⟩
  have baseProper := FileTree.isProper_of_resolve? rootFree known
  refine (agree_findFiles same baseProper free).bind ?_
  rintro files _ rfl
  exact (steady_compiled files base extra).agree.mono fun _ _ related => related.1

theorem steady_searchDirectory (rootProper : root.IsProper) (pattern : String) :
    Task.Steady tree good (fun path => FileTree.AreFree (tree.fullNames path))
      (searchDirectory root pattern) := by
  have candidateFree : FileTree.AreFree (tree.fullNames (root.child (staticPart pattern))) :=
    FileTree.areFree_fullNames_child rootProper.fullNames_free _
  unfold searchDirectory
  dsimp only
  split
  · exact Task.steady_pure candidateFree
  · refine (Task.steady_isFile _).map fun isFile _ => ?_
    split
    · exact FileTree.areFree_fullNames_parent candidateFree
    · exact candidateFree

theorem agree_searchDirectories {patterns others : List String}
    (same : SameElements patterns others) (rootProper : root.IsProper) :
    Task.Agree tree good
      (fun searched found => SameElements searched found ∧
        ∀ path ∈ searched, FileTree.AreFree (tree.fullNames path))
      (searchDirectories patterns root) (searchDirectories others root) := by
  refine (Task.agree_mapM (steady_searchDirectory rootProper) same).mono ?_
  rintro searched found ⟨sameFound, each⟩
  refine ⟨sameFound, fun path member => ?_⟩
  obtain ⟨_, _, free⟩ := each path member
  exact free

end Collecting
end Ignore
end ModuleAtlas
