import ModuleAtlas.Graph.Basic
import ModuleAtlas.Proofs.FileTree.Canonical
import ModuleAtlas.Proofs.Text.Pieces

/-!
# The names of files

A file is shown under the way to it from a root.  Between proper paths, whose names are no dots and
hold no slash, different files have different names.  What a path is resolved to is proper when the
path holds no slash inside its names.  The name of a file leads back to its path, and it tells
whether the file lies below the root.
-/

namespace ModuleAtlas

/-! ## Ways from a root -/

namespace Path

/-- A path from the root whose names are no dots and hold no slash. -/
structure IsProper (path : Path) : Prop where
  anchor : path.anchor = .root
  plain : ∀ name ∈ path.names, FileTree.IsPlain name
  free : ∀ name ∈ path.names, Text.IsFreeOf '/' name

theorem dropCommon_append (root path : List String) :
    ∃ common, root = common ++ (dropCommon root path).1 ∧
      path = common ++ (dropCommon root path).2 := by
  fun_induction dropCommon root path with
  | case1 root name path ih =>
    obtain ⟨common, rootEqual, pathEqual⟩ := ih
    exact ⟨name :: common, congrArg (name :: ·) rootEqual, congrArg (name :: ·) pathEqual⟩
  | case2 => exact ⟨[], rfl, rfl⟩
  | case3 => exact ⟨[], rfl, rfl⟩

theorem dropCommon_append_self (root way : List String) :
    dropCommon root (root ++ way) = ([], way) := by
  induction root with
  | nil => cases way <;> rfl
  | cons name root ih =>
    rw [List.cons_append, dropCommon, if_pos rfl, ih]

theorem relativeText_self (names : List String) : relativeText names names = "." := by
  have same := dropCommon_append_self names []
  rw [List.append_nil] at same
  rw [relativeText, stepsBetween, same]
  rfl

/-- The way between two paths goes up to where they part, and down from there. -/
theorem stepsBetween_eq (root path : List String) :
    ∃ up common rest, stepsBetween root path = List.replicate up ".." ++ rest ∧
      up ≤ root.length ∧ common = root.take (root.length - up) ∧ path = common ++ rest := by
  obtain ⟨common, rootEqual, pathEqual⟩ := dropCommon_append root path
  refine ⟨(dropCommon root path).1.length, common, (dropCommon root path).2, ?_, ?_, ?_, pathEqual⟩
  · rw [stepsBetween, List.map_const']
  · have length := congrArg List.length rootEqual
    rw [List.length_append] at length
    omega
  · have length := congrArg List.length rootEqual
    rw [List.length_append] at length
    have prefixLength : root.length - (dropCommon root path).1.length = common.length := by omega
    rw [prefixLength]
    conv_rhs => rw [rootEqual]
    rw [List.take_left]

/-- The steps up come to an end at the first plain name. -/
theorem replicate_append_inj {first second : Nat} {firstRest secondRest : List String}
    (firstPlain : ∀ name ∈ firstRest, FileTree.IsPlain name)
    (secondPlain : ∀ name ∈ secondRest, FileTree.IsPlain name)
    (equal : List.replicate first ".." ++ firstRest = List.replicate second ".." ++ secondRest) :
    first = second ∧ firstRest = secondRest := by
  induction first generalizing second with
  | zero =>
    cases second with
    | zero => exact ⟨rfl, equal⟩
    | succ second =>
      simp only [List.replicate_zero, List.nil_append] at equal
      have plain := firstPlain ".." (by rw [equal]; simp [List.replicate_succ])
      exact absurd rfl plain.1
  | succ first ih =>
    cases second with
    | zero =>
      simp only [List.replicate_zero, List.nil_append] at equal
      have plain := secondPlain ".." (by rw [← equal]; simp [List.replicate_succ])
      exact absurd rfl plain.1
    | succ second =>
      simp only [List.replicate_succ, List.cons_append, List.cons.injEq, true_and] at equal
      obtain ⟨rfl, same⟩ := ih equal
      exact ⟨rfl, same⟩

/-- Two paths with the same way from the root are the same. -/
theorem stepsBetween_inj {root first second : List String}
    (firstPlain : ∀ name ∈ first, FileTree.IsPlain name)
    (secondPlain : ∀ name ∈ second, FileTree.IsPlain name)
    (equal : stepsBetween root first = stepsBetween root second) :
    first = second := by
  obtain ⟨up, common, rest, steps, _, commonEqual, firstEqual⟩ := stepsBetween_eq root first
  obtain ⟨otherUp, otherCommon, otherRest, otherSteps, _, otherCommonEqual, secondEqual⟩ :=
    stepsBetween_eq root second
  rw [steps, otherSteps] at equal
  have restPlain : ∀ name ∈ rest, FileTree.IsPlain name := fun name member =>
    firstPlain name (by rw [firstEqual]; exact List.mem_append_right _ member)
  have otherPlain : ∀ name ∈ otherRest, FileTree.IsPlain name := fun name member =>
    secondPlain name (by rw [secondEqual]; exact List.mem_append_right _ member)
  obtain ⟨rfl, rfl⟩ := replicate_append_inj restPlain otherPlain equal
  rw [firstEqual, secondEqual, commonEqual, otherCommonEqual]

/-- Splitting the way from a root at its slashes gives the steps; a way without steps is a dot. -/
theorem split_relativeText {root path : List String}
    (free : ∀ name ∈ path, Text.IsFreeOf '/' name) :
    Text.split '/' (relativeText root path) =
      if stepsBetween root path = [] then ["."] else stepsBetween root path := by
  unfold relativeText
  split
  · rename_i none
    rw [if_pos none]
    decide
  · rename_i some
    rw [if_neg some]
    apply Text.split_join some
    obtain ⟨up, common, rest, steps, _, _, pathEqual⟩ := stepsBetween_eq root path
    intro name member
    rw [steps, List.mem_append, List.mem_replicate] at member
    rcases member with ⟨_, rfl⟩ | member
    · unfold Text.IsFreeOf
      decide
    · exact free name (by rw [pathEqual]; exact List.mem_append_right _ member)

theorem stepsBetween_ne_dot {root path : List String}
    (plain : ∀ name ∈ path, FileTree.IsPlain name) :
    stepsBetween root path ≠ ["."] := by
  intro dot
  obtain ⟨up, common, rest, steps, _, _, pathEqual⟩ := stepsBetween_eq root path
  have member : "." ∈ List.replicate up ".." ++ rest := by
    rw [← steps, dot]
    simp
  rw [List.mem_append, List.mem_replicate] at member
  rcases member with ⟨_, impossible⟩ | found
  · exact absurd impossible (by decide)
  · have kept := (plain "." (by rw [pathEqual]; exact List.mem_append_right _ found)).2
    exact absurd kept (by decide)

/-- Proper paths with the same way from a root are the same. -/
theorem relativeText_inj {root first second : List String}
    (firstPlain : ∀ name ∈ first, FileTree.IsPlain name)
    (firstFree : ∀ name ∈ first, Text.IsFreeOf '/' name)
    (secondPlain : ∀ name ∈ second, FileTree.IsPlain name)
    (secondFree : ∀ name ∈ second, Text.IsFreeOf '/' name)
    (equal : relativeText root first = relativeText root second) :
    first = second := by
  have splits := congrArg (Text.split '/') equal
  rw [split_relativeText firstFree, split_relativeText secondFree] at splits
  refine @stepsBetween_inj root first second firstPlain secondPlain ?_
  split at splits
  · rename_i firstNone
    split at splits
    · rename_i secondNone
      rw [firstNone, secondNone]
    · exact absurd splits.symm (stepsBetween_ne_dot secondPlain)
  · split at splits
    · exact absurd splits (stepsBetween_ne_dot firstPlain)
    · exact splits

end Path

/-- Files at different proper paths have different names. -/
theorem File.path_eq_of_seenFrom_name_eq {root first second : Path} (firstProper : first.IsProper)
    (secondProper : second.IsProper)
    (equal : (File.seenFrom root first).name = (File.seenFrom root second).name) :
    first = second := by
  obtain ⟨firstAnchor, firstNames⟩ := first
  obtain ⟨secondAnchor, secondNames⟩ := second
  obtain ⟨rfl, firstPlain, firstFree⟩ := firstProper
  obtain ⟨rfl, secondPlain, secondFree⟩ := secondProper
  simp only [File.seenFrom] at equal
  dsimp only at firstPlain secondPlain
  rw [FileTree.normalNames_of_plain firstPlain, FileTree.normalNames_of_plain secondPlain] at equal
  rw [Path.relativeText_inj firstPlain firstFree secondPlain secondFree equal]

/-- Files that are seen from one root at proper paths are told apart by their names. -/
theorem File.eq_of_name_eq {root : Path} {first second : File}
    (firstSeen : first = File.seenFrom root first.path ∧ first.path.IsProper)
    (secondSeen : second = File.seenFrom root second.path ∧ second.path.IsProper)
    (equal : first.name = second.name) :
    first = second := by
  obtain ⟨firstEqual, firstProper⟩ := firstSeen
  obtain ⟨secondEqual, secondProper⟩ := secondSeen
  rw [firstEqual, secondEqual] at equal ⊢
  rw [File.path_eq_of_seenFrom_name_eq firstProper secondProper equal]

/-! ## Names that lead back -/

namespace Path

/-- A normalised absolute path: its names are no dots and hold no slash. -/
structure IsNormal (path : Path) : Prop where
  absolute : path.isAbsolute = true
  plain : ∀ name ∈ path.names, FileTree.IsPlain name
  free : ∀ name ∈ path.names, Text.IsFreeOf '/' name

instance (path : Path) : Decidable path.IsNormal :=
  decidable_of_iff (path.isAbsolute = true ∧
    (∀ name ∈ path.names, name ≠ ".." ∧ isKept name = true) ∧
      ∀ name ∈ path.names, '/' ∉ name.toList)
    ⟨fun ⟨absolute, plain, free⟩ => ⟨absolute, plain, free⟩,
      fun normal => ⟨normal.absolute, normal.plain, normal.free⟩⟩

/-- The path with its dots resolved by the text alone. -/
def normalized (path : Path) : Path := ⟨path.anchor, normalNames path.names⟩

/-- A text leads up at first when it is two dots or starts with them and a slash. -/
theorem leavesUp_iff {text : String} :
    (text = ".." ∨ Text.startsWith "../" text = true) ↔
      (Text.split '/' text).head? = some ".." := by
  constructor
  · rintro (rfl | starts)
    · rfl
    · obtain ⟨rest, whole⟩ := List.isPrefixOf_iff_prefix.mp starts
      rw [Text.split, ← whole]
      rfl
  · intro up
    obtain ⟨rest, split⟩ := List.head?_eq_some_iff.mp up
    rw [← Text.join_split text, split]
    cases rest with
    | nil => exact .inl rfl
    | cons next others =>
      refine .inr (List.isPrefixOf_iff_prefix.mpr ?_)
      rw [Text.toList_join_cons, List.flatMap_cons]
      exact List.prefix_append ['.', '.', '/'] _

section Steps

variable {root path : List String} (plain : ∀ name ∈ path, FileTree.IsPlain name)

include plain

/-- The way leads up at first unless the path lies below the root. -/
theorem head?_stepsBetween_eq_up_iff :
    (stepsBetween root path).head? = some ".." ↔ ¬root <+: path := by
  obtain ⟨common, rootEqual, pathEqual⟩ := dropCommon_append root path
  unfold stepsBetween
  dsimp only
  cases above : (dropCommon root path).1 with
  | nil =>
    rw [above, List.append_nil] at rootEqual
    have below : root <+: path := ⟨_, by rw [rootEqual]; exact pathEqual.symm⟩
    refine iff_of_false (fun up => ?_) (not_not.mpr below)
    rw [List.map_nil, List.nil_append] at up
    have member : ".." ∈ path := by
      rw [pathEqual]
      exact List.mem_append_right _ (List.mem_of_mem_head? up)
    exact (plain ".." member).1 rfl
  | cons name others =>
    refine iff_of_true rfl ?_
    rintro ⟨way, rfl⟩
    rw [dropCommon_append_self] at above
    cases above

theorem isKept_of_mem_stepsBetween {name : String} (member : name ∈ stepsBetween root path) :
    isKept name = true := by
  obtain ⟨up, common, rest, steps, -, -, pathEqual⟩ := stepsBetween_eq root path
  rw [steps, List.mem_append, List.mem_replicate] at member
  rcases member with ⟨-, rfl⟩ | later
  · decide
  · exact (plain name (by rw [pathEqual]; exact List.mem_append_right _ later)).2

end Steps

/-! ### From a root along the way -/

/-- Steps up take back the names before them. -/
theorem normalFrom_replicate (done rest : List String) (up : Nat) :
    normalFrom done (List.replicate up ".." ++ rest) = normalFrom (done.drop up) rest := by
  induction up generalizing done with
  | zero => rfl
  | succ up ih =>
    rw [List.replicate_succ, List.cons_append, normalFrom, if_pos (by decide), ih,
      List.drop_tail]

theorem normalFrom_append_of_plain {names : List String}
    (plain : ∀ name ∈ names, FileTree.IsPlain name) (done rest : List String) :
    normalFrom done (names ++ rest) = normalFrom (names.reverse ++ done) rest := by
  induction names generalizing done with
  | nil => rfl
  | cons name others ih =>
    obtain ⟨⟨notUp, kept⟩, othersPlain⟩ := List.forall_mem_cons.mp plain
    rw [List.cons_append, normalFrom, if_neg (by simpa using notUp), if_pos kept,
      ih othersPlain, List.reverse_cons, List.append_assoc]
    rfl

/-- The way from a root leads from there to the path. -/
theorem normalNames_append_stepsBetween {root path : List String}
    (rootPlain : ∀ name ∈ root, FileTree.IsPlain name)
    (plain : ∀ name ∈ path, FileTree.IsPlain name) :
    normalNames (root ++ stepsBetween root path) = path := by
  obtain ⟨up, common, rest, steps, -, commonEqual, pathEqual⟩ := stepsBetween_eq root path
  have restPlain : ∀ name ∈ rest, FileTree.IsPlain name := fun name member =>
    plain name (by rw [pathEqual]; exact List.mem_append_right _ member)
  calc normalNames (root ++ stepsBetween root path)
      = normalFrom root.reverse (List.replicate up ".." ++ rest) := by
        rw [normalNames, normalFrom_append_of_plain rootPlain, List.append_nil, steps]
    _ = (root.reverse.drop up).reverse ++ rest := by
        rw [normalFrom_replicate, FileTree.normalFrom_of_plain restPlain]
    _ = common ++ rest := by
        rw [List.reverse_drop, List.reverse_reverse, List.length_reverse, commonEqual]
    _ = path := pathEqual.symm

theorem anchorOf_of_first {text : List Char} (first : text.head? ≠ some '/') :
    anchorOf text = .here := by
  cases text with
  | nil => rfl
  | cons c rest =>
    have different : (c == '/') = false := by simpa using first
    rw [anchorOf, List.takeWhile_cons, different]
    rfl

section Written

variable {root path : List String} (plain : ∀ name ∈ path, FileTree.IsPlain name)
  (free : ∀ name ∈ path, Text.IsFreeOf '/' name)

include plain free

/-- The written way from a root is read as the steps. -/
theorem ofText_relativeText :
    ofText (relativeText root path) = ⟨.here, stepsBetween root path⟩ := by
  have names :
      (Text.split '/' (relativeText root path)).filter isKept = stepsBetween root path := by
    rw [split_relativeText free]
    split
    · rename_i none
      rw [none]
      decide
    · exact List.filter_eq_self.mpr fun _ member => isKept_of_mem_stepsBetween plain member
  have anchor : anchorOf (relativeText root path).toList = .here := by
    refine anchorOf_of_first fun slash => ?_
    obtain ⟨rest, starts⟩ := List.head?_eq_some_iff.mp slash
    -- A slash at the start would be behind an empty step.
    have empty : "" ∈ Text.split '/' (relativeText root path) := by
      rw [Text.split, starts, Text.splitChars, if_pos rfl]
      exact List.mem_cons_self
    rw [split_relativeText free] at empty
    split at empty
    · exact absurd empty (by decide)
    · exact absurd (isKept_of_mem_stepsBetween plain empty) (by decide)
  rw [ofText, names, anchor]

/-- Only the root itself is seen as a dot. -/
theorem relativeText_eq_dot_iff (rootPlain : ∀ name ∈ root, FileTree.IsPlain name) :
    relativeText root path = "." ↔ path = root := by
  constructor
  · intro dot
    have steps : Text.split '/' (relativeText root path) = _ := split_relativeText free
    rw [dot] at steps
    split at steps
    · rename_i none
      have back := normalNames_append_stepsBetween rootPlain plain
      rw [none, List.append_nil, FileTree.normalNames_of_plain rootPlain] at back
      exact back.symm
    · exact absurd steps.symm (stepsBetween_ne_dot plain)
  · rintro rfl
    exact relativeText_self path

theorem leavesUp_relativeText_iff :
    (relativeText root path = ".." ∨ Text.startsWith "../" (relativeText root path) = true) ↔
      ¬root <+: path := by
  rw [leavesUp_iff, split_relativeText free, ← head?_stepsBetween_eq_up_iff plain]
  split
  · rename_i none
    rw [none]
    decide
  · rfl

end Written

end Path

/-- The way from a root to a path with as many slashes at its start leads back to the path, and no
other such path has it.  It is a dot for the root itself, and it leads up at first for what does not
lie below the root. -/
theorem File.name_leads_back {root path : Path} (rootNormal : root.IsNormal)
    (normal : path.IsNormal) (sameAnchor : path.anchor = root.anchor) :
    (root.child (File.seenFrom root path).name).normalized = path ∧
    (∀ other : Path, other.IsNormal → other.anchor = root.anchor →
      (File.seenFrom root other).name = (File.seenFrom root path).name → other = path) ∧
    ((File.seenFrom root path).name = "." ↔ path = root) ∧
    ((File.seenFrom root path).name = ".." ∨
        Text.startsWith "../" (File.seenFrom root path).name = true ↔
      root.isWithin path = false) := by
  have nameOf : ∀ {path : Path}, path.IsNormal →
      (File.seenFrom root path).name = Path.relativeText root.names path.names := fun normal => by
    rw [File.seenFrom, FileTree.normalNames_of_plain rootNormal.plain,
      FileTree.normalNames_of_plain normal.plain]
  have extensional : ∀ {path other : Path}, path.anchor = other.anchor →
      (path = other ↔ path.names = other.names) := by
    rintro ⟨anchor, names⟩ ⟨_, others⟩ rfl
    simp
  rw [nameOf normal]
  refine ⟨?_, fun other otherNormal otherAnchor same => ?_, ?_, ?_⟩
  · rw [Path.child, Path.ofText_relativeText normal.plain normal.free]
    refine (extensional ?_).mpr ?_
    · exact sameAnchor.symm
    · exact Path.normalNames_append_stepsBetween rootNormal.plain normal.plain
  · rw [nameOf otherNormal] at same
    exact (extensional (otherAnchor.trans sameAnchor.symm)).mpr
      (Path.relativeText_inj otherNormal.plain otherNormal.free normal.plain normal.free same)
  · rw [extensional sameAnchor]
    exact Path.relativeText_eq_dot_iff normal.plain normal.free rootNormal.plain
  · rw [Path.leavesUp_relativeText_iff normal.plain normal.free, Path.isWithin, sameAnchor,
      beq_self_eq_true, Bool.true_and, ← List.isPrefixOf_iff_prefix, Bool.not_eq_true]

/-- From a directory whose name starts with a dot the way to a file beside it leads up and back. -/
theorem File.beside_leads_back :
    (File.seenFrom (Path.ofText "/srv/.app") (Path.ofText "/srv/.lib/a.ts")).name =
        "../.lib/a.ts" ∧
      ((Path.ofText "/srv/.app").child "../.lib/a.ts").normalized = Path.ofText "/srv/.lib/a.ts" ∧
      (Path.ofText "/srv/.app").isWithin (Path.ofText "/srv/.lib/a.ts") = false := by
  have rootNormal : (Path.ofText "/srv/.app").IsNormal := by decide
  have normal : (Path.ofText "/srv/.lib/a.ts").IsNormal := by decide
  have name : (File.seenFrom (Path.ofText "/srv/.app") (Path.ofText "/srv/.lib/a.ts")).name =
      "../.lib/a.ts" := by
    decide
  obtain ⟨back, -, -, outside⟩ := File.name_leads_back rootNormal normal rfl
  rw [name] at back outside
  exact ⟨name, back, outside.mp (.inr (by decide))⟩

/-- Two slashes at the start are an anchor of their own, of which the way from the root says
nothing: it leads to the path with one slash, and both paths have it. -/
theorem File.doubled_slash_is_lost :
    (Path.ofText "/").IsNormal ∧ (Path.ofText "//a").IsNormal ∧ (Path.ofText "/a").IsNormal ∧
      ((Path.ofText "/").child
          (File.seenFrom (Path.ofText "/") (Path.ofText "//a")).name).normalized ≠
        Path.ofText "//a" ∧
      (File.seenFrom (Path.ofText "/") (Path.ofText "//a")).name =
        (File.seenFrom (Path.ofText "/") (Path.ofText "/a")).name ∧
      Path.ofText "//a" ≠ Path.ofText "/a" := by
  decide

/-! ## Resolving keeps names free of slashes -/

namespace FileTree

variable {tree : FileTree}

/-- No name in a list holds a slash. -/
def AreFree (names : List String) : Prop :=
  ∀ name ∈ names, Text.IsFreeOf '/' name

theorem areFree_append {first second : List String} :
    AreFree (first ++ second) ↔ AreFree first ∧ AreFree second := by
  simp only [AreFree, List.mem_append, or_imp, forall_and]

theorem areFree_reverse {names : List String} : AreFree names.reverse ↔ AreFree names := by
  simp only [AreFree, List.mem_reverse]

theorem areFree_ofText (text : String) : AreFree (Path.ofText text).names :=
  fun _ member => Text.free_of_mem_split (List.mem_filter.mp member).1

theorem areFree_tail {names : List String} (free : AreFree names) : AreFree names.tail :=
  fun name member => free name (List.mem_of_mem_tail member)

theorem areFree_resolveAlong {onLink : List String → List String → List String → List String × Bool}
    (followed : ∀ link here names, AreFree link → AreFree here → AreFree names →
      AreFree (onLink link here names).1)
    {here names : List String} (hereFree : AreFree here) (namesFree : AreFree names) :
    AreFree (tree.resolveAlong onLink here names).1 := by
  induction names generalizing here with
  | nil => exact hereFree
  | cons name rest ih =>
    have restFree : AreFree rest := fun other member =>
      namesFree other (List.mem_cons_of_mem _ member)
    have nextFree : AreFree (name :: here) := by
      intro other member
      rcases List.mem_cons.mp member with rfl | old
      · exact namesFree other (by simp)
      · exact hereFree other old
    unfold resolveAlong
    split
    · exact ih (areFree_tail hereFree) restFree
    · split
      · exact ih hereFree restFree
      · split
        · rename_i target known
          have baseFree : AreFree (if (Path.ofText target).isAbsolute then [] else here) := by
            split
            · exact fun _ impossible => absurd impossible (by simp)
            · exact hereFree
          have reachedFree := followed _ _ _ nextFree baseFree (areFree_ofText target)
          dsimp only
          revert reachedFree
          generalize onLink _ _ _ = outcome
          intro reachedFree
          split
          · exact ih reachedFree restFree
          · exact areFree_append.mpr ⟨areFree_reverse.mpr restFree, reachedFree⟩
        · exact ih nextFree restFree

theorem areFree_resolveWith (fuel : Nat) (pending : List (List String)) {here names : List String}
    (hereFree : AreFree here) (namesFree : AreFree names) :
    AreFree (tree.resolveWith fuel pending here names).1 := by
  induction fuel generalizing pending here names with
  | zero => exact areFree_append.mpr ⟨areFree_reverse.mpr namesFree, hereFree⟩
  | succ fuel ih =>
    refine areFree_resolveAlong ?_ hereFree namesFree
    intro link base inner linkFree baseFree innerFree
    split
    · exact linkFree
    · exact ih _ baseFree innerFree

theorem mem_normalFrom {done names : List String} {name : String}
    (donePlain : ∀ name ∈ done, IsPlain name) (member : name ∈ Path.normalFrom done names) :
    IsPlain name ∧ (name ∈ done ∨ name ∈ names) := by
  induction names generalizing done with
  | nil =>
    rw [Path.normalFrom, List.mem_reverse] at member
    exact ⟨donePlain name member, .inl member⟩
  | cons other rest ih =>
    unfold Path.normalFrom at member
    split at member
    · have tailPlain : ∀ name ∈ done.tail, IsPlain name := fun name found =>
        donePlain name (List.mem_of_mem_tail found)
      obtain ⟨plain, origin⟩ := ih tailPlain member
      refine ⟨plain, ?_⟩
      rcases origin with early | late
      · exact .inl (List.mem_of_mem_tail early)
      · exact .inr (List.mem_cons_of_mem _ late)
    · rename_i notUp
      split at member
      · rename_i kept
        have nextPlain : ∀ name ∈ other :: done, IsPlain name := by
          intro name found
          rcases List.mem_cons.mp found with rfl | old
          · exact ⟨by simpa using notUp, kept⟩
          · exact donePlain name old
        obtain ⟨plain, origin⟩ := ih nextPlain member
        refine ⟨plain, ?_⟩
        rw [List.mem_cons] at origin ⊢
        tauto
      · obtain ⟨plain, origin⟩ := ih donePlain member
        refine ⟨plain, ?_⟩
        rw [List.mem_cons]
        tauto

/-- A path without slashes inside its names is resolved to a proper path. -/
theorem isProper_of_resolve? {path resolved : Path} (free : AreFree (tree.fullNames path))
    (known : tree.resolve? path = some resolved) :
    resolved.IsProper := by
  unfold resolve? at known
  have reached : AreFree
      (tree.resolveWith (tree.root.linkCount + 2) [] [] (tree.fullNames path)).1 :=
    areFree_resolveWith _ _ (fun _ impossible => absurd impossible (by simp)) free
  revert known reached
  generalize tree.resolveWith (tree.root.linkCount + 2) [] [] (tree.fullNames path) = outcome
  obtain ⟨names, complete⟩ := outcome
  intro known reached
  dsimp only at known reached
  have same : resolved = Path.ofRoot (Path.normalNames names.reverse) := by
    split at known
    · cases known
    · cases known
      rfl
  rw [same]
  refine ⟨rfl, fun name member => ?_, fun name member => ?_⟩
  · exact (mem_normalFrom (by simp) member).1
  · rcases (mem_normalFrom (by simp) member).2 with impossible | origin
    · simp at impossible
    · exact areFree_reverse.mpr reached name origin

end FileTree

end ModuleAtlas
