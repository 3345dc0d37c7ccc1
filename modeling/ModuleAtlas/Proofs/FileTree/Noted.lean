import ModuleAtlas.Proofs.Session.Twins

/-!
# File trees with other editions of their files

An edited copy of a file tree has the same directories and links, and files whose syntax trees are
related, as when comments are added.  Every path leads to the same place in both, so that the two
differ in nothing but the syntax of their files.
-/

namespace ModuleAtlas

open Node

/-! ## Entries -/

namespace Entry

/-- The text that bytes stand for, line ends unified. -/
def textOf? (bytes : ByteArray) : Option (List Char) :=
  (Text.Utf8.decode? bytes.toList).map fun text => Text.unifyNewlines text.toList

/-- Bytes that are read as the same manifest, the same compiler options and the same workspace. -/
structure ReadAlike (bytes copy : ByteArray) : Prop where
  manifest : (textOf? bytes).map Json.parse = (textOf? copy).map Json.parse
  options : (textOf? bytes).map (fun text => Json.parse (Json.stripComments text)) =
    (textOf? copy).map fun text => Json.parse (Json.stripComments text)
  workspace : (textOf? bytes).map (Yaml.textsUnder "packages") =
    (textOf? copy).map (Yaml.textsUnder "packages")

theorem ReadAlike.refl (bytes : ByteArray) : ReadAlike bytes bytes := ⟨rfl, rfl, rfl⟩

mutual

/-- An entry and another edition of it, where the syntax trees of each file are related as it is
told for the place of the file. -/
inductive Edited (files : List String → Node → Node → Prop) :
    List String → Entry → Entry → Prop where
  | file {here : List String} {bytes copy : ByteArray} {parsed parsedCopy : Option Node}
      (alike : ReadAlike bytes copy)
      (same : parsed.isSome = parsedCopy.isSome)
      (related : files here (parsed.getD Session.emptyTree) (parsedCopy.getD Session.emptyTree)) :
      Edited files here (.file bytes parsed) (.file copy parsedCopy)
  | directory {here : List String} {entries copies : List (String × Entry)}
      (below : EditedAll files here entries copies) :
      Edited files here (.directory entries) (.directory copies)
  | link {here : List String} {target : String} : Edited files here (.link target) (.link target)

/-- The entries of a directory and of another edition of it. -/
inductive EditedAll (files : List String → Node → Node → Prop) :
    List String → List (String × Entry) → List (String × Entry) → Prop where
  | nil {here : List String} : EditedAll files here [] []
  | cons {here : List String} {name : String} {entry copy : Entry}
      {entries copies : List (String × Entry)}
      (head : Edited files (here ++ [name]) entry copy)
      (tail : EditedAll files here entries copies) :
      EditedAll files here ((name, entry) :: entries) ((name, copy) :: copies)

end

variable {files wider : List String → Node → Node → Prop} {here : List String} {entry copy : Entry}
  {entries copies : List (String × Entry)}

mutual

theorem Edited.mono (implied : ∀ here node copy, files here node copy → wider here node copy) :
    ∀ {here : List String} {entry copy : Entry},
      Edited files here entry copy → Edited wider here entry copy
  | _, _, _, .file alike same related => .file alike same (implied _ _ _ related)
  | _, _, _, .directory below => .directory (below.mono implied)
  | _, _, _, .link => .link

theorem EditedAll.mono (implied : ∀ here node copy, files here node copy → wider here node copy) :
    ∀ {here : List String} {entries copies : List (String × Entry)},
      EditedAll files here entries copies → EditedAll wider here entries copies
  | _, _, _, .nil => .nil
  | _, _, _, .cons head tail => .cons (head.mono implied) (tail.mono implied)

end

theorem Edited.isFile_eq (edited : Edited files here entry copy) : entry.isFile = copy.isFile := by
  cases edited <;> rfl

theorem Edited.isDirectory_eq (edited : Edited files here entry copy) :
    entry.isDirectory = copy.isDirectory := by
  cases edited <;> rfl

theorem EditedAll.names_eq (edited : EditedAll files here entries copies) :
    entries.map (·.1) = copies.map (·.1) := by
  induction entries generalizing copies with
  | nil =>
    cases edited
    rfl
  | cons entry rest ih =>
    cases edited with
    | cons _ tail => rw [List.map_cons, List.map_cons, ih tail]

theorem EditedAll.lookup (edited : EditedAll files here entries copies) (name : String) :
    Option.Rel (Edited files (here ++ [name])) (entries.lookup name) (copies.lookup name) := by
  induction entries generalizing copies with
  | nil =>
    cases edited
    exact .none
  | cons entry rest ih =>
    cases edited with
    | @cons _ first _ _ _ _ head tail =>
      rw [List.lookup_cons, List.lookup_cons]
      cases found : name == first with
      | true =>
        rw [eq_of_beq found]
        exact .some head
      | false => exact ih tail

theorem Edited.child? (edited : Edited files here entry copy) (name : String) :
    Option.Rel (Edited files (here ++ [name])) (entry.child? name) (copy.child? name) := by
  cases edited with
  | file | link => exact .none
  | directory below => exact below.lookup name

/-- Names lead to an entry and its copy. -/
theorem Edited.at? (edited : Edited files here entry copy) (names : List String) :
    Option.Rel (Edited files (here ++ names)) (entry.at? names) (copy.at? names) := by
  induction names generalizing here entry copy with
  | nil =>
    rw [List.append_nil]
    exact .some edited
  | cons name rest ih =>
    unfold Entry.at?
    rcases optionRel_cases (edited.child? name) with
      ⟨none, noCopy⟩ | ⟨child, childCopy, found, copyFound, related⟩
    · rw [none, noCopy]
      exact .none
    · rw [found, copyFound, List.append_cons]
      exact ih related

mutual

/-- An entry and its copy have as many links, as many files and directories, and directories that
are nested as deeply. -/
theorem Edited.sizes_eq : ∀ {here : List String} {entry copy : Entry},
    Edited files here entry copy →
      entry.linkCount = copy.linkCount ∧ entry.depth = copy.depth ∧ entry.count = copy.count
  | _, _, _, .file .. => ⟨rfl, rfl, rfl⟩
  | _, _, _, .link => ⟨rfl, rfl, rfl⟩
  | _, _, _, .directory below => by
    obtain ⟨links, deep, many⟩ := below.sizes_eq
    exact ⟨links, congrArg (· + 1) deep, congrArg (· + 1) many⟩

theorem EditedAll.sizes_eq : ∀ {here : List String} {entries copies : List (String × Entry)},
    EditedAll files here entries copies →
      linkCounts entries = linkCounts copies ∧ depths entries = depths copies ∧
        counts entries = counts copies
  | _, _, _, .nil => ⟨rfl, rfl, rfl⟩
  | _, _, _, .cons head tail => by
    obtain ⟨links, deep, many⟩ := head.sizes_eq
    obtain ⟨otherLinks, otherDeep, otherMany⟩ := tail.sizes_eq
    exact ⟨congrArg₂ _ links otherLinks, congrArg₂ _ deep otherDeep, congrArg₂ _ many otherMany⟩

end

mutual

/-- The files have as many nodes in both editions when each of them has, comments apart. -/
theorem Edited.nodes_eq (substance : ∀ here node copy, files here node copy →
      node.substance.length = copy.substance.length) :
    ∀ {here : List String} {entry copy : Entry}, Edited files here entry copy →
      total (entry.trees.map fun parsed => parsed.substance.length) =
        total (copy.trees.map fun parsed => parsed.substance.length)
  | _, _, _, @Edited.file _ _ _ _ parsed parsedCopy _ same related => by
    cases parsed with
    | none =>
      cases parsedCopy with
      | none => rfl
      | some _ => cases same
    | some parsed =>
      cases parsedCopy with
      | none => cases same
      | some _ =>
        simp only [trees, Option.toList_some, List.map_cons, List.map_nil, total_cons, total_nil]
        exact congrArg (· + 0) (substance _ _ _ related)
  | _, _, _, .link => rfl
  | _, _, _, .directory below => below.nodes_eq substance

theorem EditedAll.nodes_eq (substance : ∀ here node copy, files here node copy →
      node.substance.length = copy.substance.length) :
    ∀ {here : List String} {entries copies : List (String × Entry)},
      EditedAll files here entries copies →
      total ((treesOf entries).map fun parsed => parsed.substance.length) =
        total ((treesOf copies).map fun parsed => parsed.substance.length)
  | _, _, _, .nil => rfl
  | _, _, _, .cons head tail => by
    rw [treesOf, treesOf, List.map_append, List.map_append, total_append, total_append,
      head.nodes_eq substance, tail.nodes_eq substance]

end

end Entry

/-! ## Looking paths up -/

namespace FileTree

open Entry

/-- A file tree and another edition of its files. -/
structure Edited (files : List String → Node → Node → Prop) (tree copy : FileTree) : Prop where
  root : Entry.Edited files [] tree.root copy.root
  workingDirectory : tree.workingDirectory = copy.workingDirectory

/-- A file tree and a copy with comments in its files. -/
def Noted (move : List String → Nat → Nat) : FileTree → FileTree → Prop :=
  Edited fun here node copy => ∃ above, Glossed (move here) above node copy

/-- The same fault, or an entry and its copy at the same place. -/
inductive LeadsAlike (files : List String → Node → Node → Prop) :
    Except LookupFault Located → Except LookupFault Located → Prop where
  | error (fault : LookupFault) : LeadsAlike files (.error fault) (.error fault)
  | ok {names : List String} {entry copy : Entry} (edited : Entry.Edited files names entry copy) :
      LeadsAlike files (.ok (names, entry)) (.ok (names, copy))

variable {files : List String → Node → Node → Prop} {tree copy : FileTree}

theorem text?_of_lookup
    {path : Path} {names : List String} {bytes : ByteArray} {parsed : Option Node}
    (found : tree.lookup path = .ok (names, .file bytes parsed)) :
    tree.text? path = textOf? bytes := by
  unfold text? bytes? textOf?
  rw [found, Option.map_eq_bind]
  rfl

namespace Edited

variable (edited : tree.Edited files copy)

include edited

theorem at? (names : List String) :
    Option.Rel (Entry.Edited files names) (tree.root.at? names) (copy.root.at? names) := by
  have below := edited.root.at? names
  rwa [List.nil_append] at below

theorem advance {onLink otherOnLink : List String → List String → Except LookupFault Located}
    (links : ∀ here rest, LeadsAlike files (onLink here rest) (otherOnLink here rest))
    (here names : List String) :
    LeadsAlike files (tree.advance onLink here names) (copy.advance otherOnLink here names) := by
  induction names generalizing here with
  | nil =>
    unfold FileTree.advance
    rcases optionRel_cases (edited.at? here.reverse) with
      ⟨none, noCopy⟩ | ⟨entry, entryCopy, found, copyFound, related⟩
    · rw [none, noCopy]
      exact .error _
    · rw [found, copyFound]
      exact .ok related
  | cons name rest ih =>
    unfold FileTree.advance
    rcases optionRel_cases (edited.at? here.reverse) with
      ⟨none, noCopy⟩ | ⟨entry, entryCopy, found, copyFound, related⟩
    · rw [none, noCopy]
      exact .error _
    · rw [found, copyFound]
      cases related with
      | file | link => exact .error _
      | directory below =>
        dsimp only
        split
        · exact ih _
        split
        · exact ih _
        split
        · exact .error _
        rcases optionRel_cases (below.lookup name) with
          ⟨none, noCopy⟩ | ⟨child, childCopy, known, copyKnown, childRelated⟩
        · rw [none, noCopy]
          exact .error _
        · rw [known, copyKnown]
          cases childRelated with
          | file | directory => exact ih _
          | link =>
            dsimp only
            split
            · exact .error _
            · exact links _ _

theorem follow (links : Nat) (here names : List String) :
    LeadsAlike files (tree.follow links here names) (copy.follow links here names) := by
  induction links generalizing here names with
  | zero => exact edited.advance (fun _ _ => .error _) here names
  | succ links ih => exact edited.advance ih here names

/-- A path leads to an entry and to its copy. -/
theorem lookup (path : Path) : LeadsAlike files (tree.lookup path) (copy.lookup path) := by
  unfold FileTree.lookup fullNames
  rw [← edited.workingDirectory]
  split
  · exact .error _
  split
  · exact .error _
  · exact edited.follow _ _ _

theorem lookup_cases (path : Path) :
    (∃ fault, tree.lookup path = .error fault ∧ copy.lookup path = .error fault) ∨
      ∃ names entry entryCopy, tree.lookup path = .ok (names, entry) ∧
        copy.lookup path = .ok (names, entryCopy) ∧ Entry.Edited files names entry entryCopy := by
  have leads := edited.lookup path
  generalize tree.lookup path = found at leads ⊢
  generalize copy.lookup path = copyFound at leads ⊢
  cases leads with
  | error fault => exact .inl ⟨fault, rfl, rfl⟩
  | ok related => exact .inr ⟨_, _, _, rfl, rfl, related⟩

theorem passes_eq {test : Entry → Bool}
    (respects : ∀ names entry copy, Entry.Edited files names entry copy → test entry = test copy)
    (path : Path) :
    tree.passes test path = copy.passes test path := by
  unfold passes
  rcases edited.lookup_cases path with
    ⟨fault, failed, copyFailed⟩ | ⟨names, entry, entryCopy, found, copyFound, related⟩
  · rw [failed, copyFailed]
  · rw [found, copyFound]
    exact congrArg Except.ok (respects _ _ _ related)

theorem list?_eq (path : Path) : tree.list? path = copy.list? path := by
  unfold list?
  rcases edited.lookup_cases path with
    ⟨fault, failed, copyFailed⟩ | ⟨names, entry, entryCopy, found, copyFound, related⟩
  · rw [failed, copyFailed]
  · rw [found, copyFound]
    cases related with
    | file | link => rfl
    | directory below =>
      dsimp only
      rw [below.names_eq]

/-! ### Links -/

theorem lookupLink (path : Path) :
    Option.Rel (fun entry copy => ∃ names, Entry.Edited files names entry copy)
      (tree.lookupLink path) (copy.lookupLink path) := by
  unfold FileTree.lookupLink
  split
  · exact .some ⟨[], edited.root⟩
  · rcases edited.lookup_cases path with
      ⟨fault, failed, copyFailed⟩ | ⟨names, entry, entryCopy, found, copyFound, related⟩
    · rw [failed, copyFailed]
      exact .none
    · rw [found, copyFound]
      exact .some ⟨names, related⟩
  · rename_i name _ _
    rcases edited.lookup_cases path.parent with
      ⟨fault, failed, copyFailed⟩ | ⟨names, entry, entryCopy, found, copyFound, related⟩
    · rw [failed, copyFailed]
      exact .none
    · rw [found, copyFound]
      exact optionRel_mono (related.child? name) fun _ _ below => ⟨_, below⟩

theorem isLink_eq (path : Path) : tree.isLink path = copy.isLink path := by
  unfold isLink
  rcases optionRel_cases (edited.lookupLink path) with
    ⟨none, noCopy⟩ | ⟨entry, entryCopy, found, copyFound, _, related⟩
  · rw [none, noCopy]
  · rw [found, copyFound]
    cases related <;> rfl

/-- Paths resolve alike in both trees. -/
theorem resolveAlong_eq {onLink : List String → List String → List String → List String × Bool}
    (here names : List String) :
    tree.resolveAlong onLink here names = copy.resolveAlong onLink here names := by
  induction names generalizing here with
  | nil => rfl
  | cons name rest ih =>
    unfold resolveAlong
    simp only [ih]
    rcases optionRel_cases (edited.at? (name :: here).reverse) with
      ⟨none, noCopy⟩ | ⟨entry, entryCopy, found, copyFound, related⟩
    · rw [none, noCopy]
    · rw [found, copyFound]
      cases related <;> rfl

theorem resolveWith_eq (fuel : Nat) (pending : List (List String)) :
    tree.resolveWith fuel pending = copy.resolveWith fuel pending := by
  induction fuel generalizing pending with
  | zero => rfl
  | succ fuel ih =>
    funext here names
    unfold resolveWith
    simp only [ih]
    exact edited.resolveAlong_eq here names

theorem resolve?_eq (path : Path) : tree.resolve? path = copy.resolve? path := by
  unfold resolve? fullNames
  rw [edited.root.sizes_eq.1, edited.resolveWith_eq, edited.workingDirectory]
  dsimp only
  generalize Path.ofRoot _ = resolved
  rcases edited.lookup_cases resolved with
    ⟨fault, failed, copyFailed⟩ | ⟨names, entry, entryCopy, found, copyFound, related⟩
  · rw [failed, copyFailed]
  · rw [found, copyFound]

/-! ### Texts -/

theorem text?_cases (path : Path) :
    (tree.text? path = none ∧ copy.text? path = none) ∨
      ∃ bytes bytesCopy, tree.text? path = textOf? bytes ∧ copy.text? path = textOf? bytesCopy ∧
        ReadAlike bytes bytesCopy := by
  rcases edited.lookup_cases path with
    ⟨fault, failed, copyFailed⟩ | ⟨names, entry, entryCopy, found, copyFound, related⟩
  · exact .inl ⟨by simp [text?, bytes?, failed], by simp [text?, bytes?, copyFailed]⟩
  · cases related with
    | directory | link =>
      exact .inl ⟨by simp [text?, bytes?, found], by simp [text?, bytes?, copyFound]⟩
    | file alike => exact .inr ⟨_, _, text?_of_lookup found, text?_of_lookup copyFound, alike⟩

/-- What is made of a text is the same for a file and its copy when it is so for what they hold. -/
theorem readText_eq {α : Type} {image : List Char → α}
    (alike : ∀ bytes copy, ReadAlike bytes copy →
      (textOf? bytes).map image = (textOf? copy).map image)
    (path : Path) :
    (tree.text? path).map image = (copy.text? path).map image := by
  rcases edited.text?_cases path with ⟨none, noCopy⟩ | ⟨bytes, bytesCopy, held, copyHeld, same⟩
  · rw [none, noCopy]
  · rw [held, copyHeld, alike _ _ same]

theorem readObject_eq {strip : List Char → List Char}
    (alike : ∀ bytes copy, ReadAlike bytes copy →
      (textOf? bytes).map (fun text => Json.parse (strip text)) =
        (textOf? copy).map fun text => Json.parse (strip text))
    (otherwise : ManifestFault) (path : Path) :
    Resolver.readObject tree path strip otherwise =
      Resolver.readObject copy path strip otherwise := by
  have same := edited.readText_eq alike path
  unfold Resolver.readObject
  cases held : tree.text? path with
  | none =>
    cases copyHeld : copy.text? path with
    | none => rfl
    | some text => simp [held, copyHeld] at same
  | some text =>
    cases copyHeld : copy.text? path with
    | none => simp [held, copyHeld] at same
    | some copyText =>
      rw [held, copyHeld] at same
      have parsesSame : Json.parse (strip text) = Json.parse (strip copyText) :=
        Option.some.inj same
      dsimp only
      rw [parsesSame]

/-! ### All that is asked -/

theorem agrees : tree.Agrees copy where
  isPresent := edited.passes_eq fun _ _ _ _ => rfl
  isFile := edited.passes_eq fun _ _ _ => Entry.Edited.isFile_eq
  isDirectory := edited.passes_eq fun _ _ _ => Entry.Edited.isDirectory_eq
  isLink := edited.isLink_eq
  list := edited.list?_eq
  resolves := edited.resolve?_eq
  depth := edited.root.sizes_eq.2.1
  count := edited.root.sizes_eq.2.2
  manifests := edited.readObject_eq (fun _ _ => ReadAlike.manifest) _
  options := edited.readObject_eq (fun _ _ => ReadAlike.options) _
  workspaces := edited.readText_eq fun _ _ => ReadAlike.workspace

end Edited

/-- The place to which a path leads. -/
def namesAt (tree : FileTree) (path : Path) : List String :=
  match tree.lookup path with
  | .ok (names, _) => names
  | .error _ => []

/-- The revision that moves the nodes of the files as it is told for their places. -/
def movedAt (tree : FileTree) (spelling : Spelling) (move : List String → Nat → Nat) : Revision :=
  ⟨spelling, fun path => move (tree.namesAt path)⟩

/-- What is revised in the file at a place. -/
abbrev changeAt (spelling : Spelling) (move : List String → Nat → Nat) (here : List String) :
    Change :=
  ⟨spelling, fun start other => other = move here start⟩

/-- A file tree and a copy with revised files, where no file knows a name that is spelled in another
way. -/
def Respelled (spelling : Spelling) (move : List String → Nat → Nat) : FileTree → FileTree → Prop :=
  Edited fun here node copy => Copied (changeAt spelling move here) node copy ∧ spelling.Spares node

/-- A file tree and one with revised files are faithful editions when the nodes of no file fall
together. -/
theorem Respelled.faithful
    {spelling : Spelling} {move : List String → Nat → Nat} {tree copy : FileTree}
    (respelled : tree.Respelled spelling move copy)
    (injective : ∀ names, Function.Injective (move names)) (root : Path) :
    Edition.Faithful ⟨tree.movedAt spelling move, tree, copy, root⟩ where
  injective path := injective _
  agrees := Edited.agrees respelled
  modules canonical := by
    unfold Session.moduleAt
    split
    · exact .error _
    · rename_i language _
      rcases Edited.lookup_cases respelled canonical with
        ⟨fault, failed, copyFailed⟩ | ⟨names, entry, entryCopy, found, copyFound, related⟩
      · rw [failed, copyFailed]
        exact .error _
      · have place : tree.namesAt canonical = names := by rw [namesAt, found]
        have same : (tree.movedAt spelling move).inFile canonical = changeAt spelling move names :=
          congrArg (changeAt spelling move) place
        rw [found, copyFound, same]
        cases related with
        | directory | link => exact .error _
        | file _ _ both =>
          obtain ⟨inner, spares⟩ := both
          exact .ok (SourceModule.revised_ofTree canonical language inner
            (SourceModule.hides_ofTree spares canonical language))
  bound := by
    have nodes := respelled.root.nodes_eq fun _ _ _ ⟨⟨_, revised⟩, _⟩ => revised.length_substance_eq
    have count := respelled.root.sizes_eq.2.2
    unfold Session.walkBound
    dsimp only
    rw [nodes, count]

/-- A copy with comments is one where nothing is spelled in another way. -/
theorem Noted.respelled {move : List String → Nat → Nat} {tree copy : FileTree}
    (noted : tree.Noted move copy) : tree.Respelled .same move copy :=
  ⟨noted.root.mono fun _ node _ ⟨above, glossed⟩ =>
    ⟨⟨above, glossed.revised⟩, Spelling.spares_same node⟩, noted.workingDirectory⟩

end FileTree
end ModuleAtlas
