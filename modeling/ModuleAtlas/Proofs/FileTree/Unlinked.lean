import ModuleAtlas.Proofs.FileTree.Names

/-!
# File trees without links

Where there is no link, dots are resolved by the text alone: a path stands for the normal form of
its names, whether or not it leads anywhere, and what it leads to is found under the normal form
too.
-/

namespace ModuleAtlas

/-! ## Normal forms -/

namespace Path

theorem normalFrom_sublist (done names : List String) :
    (normalFrom done names).Sublist (done.reverse ++ names) := by
  induction names generalizing done with
  | nil => rw [normalFrom, List.append_nil]
  | cons name rest ih =>
    have skipped : (done.reverse ++ rest).Sublist (done.reverse ++ name :: rest) :=
      (List.sublist_cons_self name rest).append_left done.reverse
    unfold normalFrom
    split
    · have shorter : (done.tail.reverse ++ rest).Sublist (done.reverse ++ rest) :=
        (List.tail_sublist done).reverse.append_right rest
      exact ((ih done.tail).trans shorter).trans skipped
    · split
      · have onward := ih (name :: done)
        rwa [List.reverse_cons, List.append_assoc, List.singleton_append] at onward
      · exact (ih done).trans skipped

/-- The names of a normal form stand in what it was made from. -/
theorem normalNames_sublist (names : List String) : (normalNames names).Sublist names :=
  normalFrom_sublist [] names

theorem utf8ByteSize_join_cons (name : String) {others : List String} (nonempty : others ≠ []) :
    (Text.join "/" (name :: others)).utf8ByteSize =
      name.utf8ByteSize + 1 + (Text.join "/" others).utf8ByteSize := by
  obtain ⟨next, rest, rfl⟩ := List.exists_cons_of_ne_nil nonempty
  have slash : ("/" : String).utf8ByteSize = 1 := by decide
  unfold Text.join
  rw [String.intercalate_cons_cons, String.utf8ByteSize_append, String.utf8ByteSize_append, slash]

/-- Joined names are no shorter than some of them joined. -/
theorem utf8ByteSize_join_le {names others : List String} (sublist : names.Sublist others) :
    (Text.join "/" names).utf8ByteSize ≤ (Text.join "/" others).utf8ByteSize := by
  induction sublist with
  | slnil => exact le_rfl
  | @cons names others name sublist ih =>
    by_cases none : others = []
    · subst none
      rw [List.sublist_nil.mp sublist]
      exact Nat.zero_le _
    · rw [utf8ByteSize_join_cons name none]
      omega
  | @cons_cons names others name sublist ih =>
    by_cases none : others = []
    · subst none
      rw [List.sublist_nil.mp sublist]
    · rw [utf8ByteSize_join_cons name none]
      by_cases noNames : names = []
      · have single : Text.join "/" [name] = name := by simp [Text.join]
        rw [noNames, single]
        omega
      · rw [utf8ByteSize_join_cons name noNames]
        omega

/-- The text of an absolute path is no shorter than that of a path from the root with some of its
names. -/
theorem utf8ByteSize_text_le {path : Path} (absolute : path.isAbsolute = true)
    {names : List String} (sublist : names.Sublist path.names) :
    (ofRoot names).text.utf8ByteSize ≤ path.text.utf8ByteSize := by
  have joined := utf8ByteSize_join_le sublist
  obtain ⟨anchor, others⟩ := path
  have slash : ("/" : String).utf8ByteSize = 1 := by decide
  have slashes : ("//" : String).utf8ByteSize = 2 := by decide
  cases anchor with
  | here => cases absolute
  | root => simpa [ofRoot, text, anchorText, slash] using joined
  | doubleRoot =>
    simp only [ofRoot, text, anchorText, String.utf8ByteSize_append, slash, slashes]
    exact Nat.add_le_add (by decide) joined

end Path

namespace FileTree

variable {tree : FileTree} {path : Path}

theorem fullNames_of_isAbsolute (absolute : path.isAbsolute = true) :
    tree.fullNames path = path.names :=
  if_pos absolute

/-! ## Resolving -/

section

variable (unlinked : tree.root.linkCount = 0)

include unlinked

/-- A tree that counts no link holds none. -/
theorem ne_link_of_linkCount (names : List String)
    (target : String) : tree.root.at? names ≠ some (.link target) := by
  intro link
  have isLink : ∀ other ∈ [names], ∃ target, tree.root.at? other = some (.link target) := by
    intro other member
    rw [List.mem_singleton.mp member]
    exact ⟨target, link⟩
  have counted := Entry.length_le_linkCount (List.nodup_singleton names) isLink
  rw [unlinked] at counted
  cases counted

/-- Without links a path resolves to its normal form. -/
theorem resolveAlong_of_unlinked
    (onLink : List String → List String → List String → List String × Bool)
    (here names : List String) :
    tree.resolveAlong onLink here names = ((Path.normalFrom here names).reverse, true) := by
  induction names generalizing here with
  | nil => rw [resolveAlong, Path.normalFrom, List.reverse_reverse]
  | cons name rest ih =>
    unfold resolveAlong Path.normalFrom
    split
    · exact ih here.tail
    · by_cases kept : Path.isKept name = true
      · rw [if_neg (by simp [kept]), if_pos kept]
        split
        · rename_i target link
          exact absurd link (ne_link_of_linkCount unlinked _ target)
        · exact ih (name :: here)
      · rw [if_pos (by simp [kept]), if_neg kept]
        exact ih here

theorem advance_ne_tooManyLinks_of_unlinked
    {onLink : List String → List String → Except LookupFault Located} (here names : List String) :
    tree.advance onLink here names ≠ .error .tooManyLinks := by
  induction names generalizing here with
  | nil =>
    unfold advance
    split <;> simp
  | cons name rest ih =>
    rcases cases_of_advance tree here name with
      ⟨next, moves⟩ | ⟨target, follows⟩ | ⟨fault, other, stops⟩
    · rw [advance_of_moves moves]
      exact ih next
    · exact absurd follows.known (ne_link_of_linkCount unlinked _ target)
    · rw [stops]
      exact fun same => other (Except.error.inj same)

/-- In a tree without links every path is resolved to the normal form of its names. -/
theorem resolve?_of_unlinked (path : Path) :
    tree.resolve? path = some (.ofRoot (Path.normalNames (tree.fullNames path))) := by
  have reached : tree.resolveWith (tree.root.linkCount + 2) [] [] (tree.fullNames path) =
      ((Path.normalNames (tree.fullNames path)).reverse, true) :=
    resolveAlong_of_unlinked unlinked _ [] _
  have plain : ∀ name ∈ Path.normalNames (tree.fullNames path), IsPlain name :=
    fun name member => (mem_normalFrom (by simp) member).1
  have ended : ∀ resolved, tree.lookup resolved ≠ .error .tooManyLinks := by
    intro resolved
    unfold lookup
    split
    · simp
    · split
      · simp
      · exact advance_ne_tooManyLinks_of_unlinked unlinked [] _
  unfold resolve?
  rw [reached]
  dsimp only
  rw [List.reverse_reverse, normalNames_of_plain plain]
  split
  · rename_i loops
    exact absurd loops (ended _)
  · rfl

theorem resolve?_of_isProper (proper : path.IsProper) :
    tree.resolve? path = some path := by
  obtain ⟨anchor, names⟩ := path
  obtain ⟨rfl, plain, -⟩ := proper
  rw [resolve?_of_unlinked unlinked, fullNames_of_isAbsolute rfl, normalNames_of_plain plain]
  rfl

/-- What an absolute path is resolved to are the normal names of its own. -/
theorem normalNames_of_resolve? (absolute : path.isAbsolute = true)
    {resolved : Path} (known : tree.resolve? path = some resolved) :
    resolved = .ofRoot (Path.normalNames path.names) := by
  rw [resolve?_of_unlinked unlinked, fullNames_of_isAbsolute absolute] at known
  exact (Option.some.inj known).symm

end

/-! ## Looking up -/

theorem exists_of_isFile (isFile : tree.isFile path = true) :
    ∃ found, tree.lookup path = .ok found := by
  unfold FileTree.isFile at isFile
  cases looked : tree.lookup path with
  | ok found => exact ⟨found, rfl⟩
  | error fault =>
    rw [looked] at isFile
    cases isFile

theorem isFile_of_passes {found : Bool} (outcome : tree.passes Entry.isFile path = .ok found) :
    found = tree.isFile path ∧ tree.lookup path ≠ .error .tooLong := by
  unfold passes at outcome
  unfold FileTree.isFile
  split at outcome
  · rename_i names entry looked
    rw [looked]
    exact ⟨(Except.ok.inj outcome).symm, nofun⟩
  · cases outcome
  · rename_i fault notLong looked
    rw [looked]
    exact ⟨(Except.ok.inj outcome).symm, fun long => notLong (Except.error.inj long)⟩

/-- The plain names that a lookup goes along are not too long. -/
theorem fits_of_advance (unlinked : tree.root.linkCount = 0)
    {onLink : List String → List String → Except LookupFault Located}
    {here names : List String} {found : Located}
    (ran : tree.advance onLink here names = .ok found) :
    ∀ name ∈ names, IsPlain name → name.utf8ByteSize ≤ nameLimit := by
  induction names generalizing here with
  | nil => simp
  | cons first rest ih =>
    rcases cases_of_advance tree here first with
      ⟨next, moves⟩ | ⟨target, follows⟩ | ⟨fault, -, stops⟩
    · rw [advance_of_moves moves] at ran
      intro name member plain
      rcases List.mem_cons.mp member with rfl | inRest
      · cases moves with
        | up => exact absurd rfl plain.1
        | stay dropped => rw [plain.2] at dropped; cases dropped
        | enter _ short => exact short
      · exact ih ran name inRest plain
    · exact absurd follows.known (ne_link_of_linkCount unlinked _ target)
    · rw [stops] at ran
      cases ran

/-- Going along the names of an entry finds it, unless one of them is too long. -/
theorem advance_at? (unlinked : tree.root.linkCount = 0)
    {onLink : List String → List String → Except LookupFault Located}
    {here names : List String} {entry : Entry}
    (known : tree.root.at? (here.reverse ++ names) = some entry)
    (plain : ∀ name ∈ names, IsPlain name) :
    tree.advance onLink here names =
      if ∀ name ∈ names, name.utf8ByteSize ≤ nameLimit then .ok (here.reverse ++ names, entry)
      else .error .tooLong := by
  induction names generalizing here with
  | nil =>
    rw [List.append_nil] at known
    rw [advance, known, List.append_nil, if_pos (by simp)]
  | cons name rest ih =>
    have namePlain := plain name List.mem_cons_self
    have onward : tree.root.at? ((name :: here).reverse ++ rest) = some entry := by
      rw [← known, List.reverse_cons, List.append_assoc, List.singleton_append]
    have child := onward
    rw [Entry.at?_append] at child
    obtain ⟨next, nextKnown, -⟩ := Option.bind_eq_some_iff.mp child
    have later := ih onward fun other member => plain other (List.mem_cons_of_mem _ member)
    rw [List.reverse_cons, List.append_assoc, List.singleton_append] at later
    by_cases short : name.utf8ByteSize ≤ nameLimit
    · have noLink : next.isLink = false := by
        rw [Entry.isLink_eq_false_iff]
        rintro target rfl
        exact ne_link_of_linkCount unlinked _ target nextKnown
      rw [advance_of_moves (.enter namePlain short nextKnown noLink), later]
      simp [short]
    · rw [List.reverse_cons] at nextKnown
      obtain ⟨entries, hereKnown, -⟩ := Entry.child?_of_at?_concat nextKnown
      rw [if_neg fun fits => short (fits name List.mem_cons_self), advance, hereKnown]
      simp [namePlain.1, namePlain.2, Nat.lt_of_not_le short]

/-- The canonical path of an entry leads to it, unless it is too long. -/
theorem lookup_of_at? (unlinked : tree.root.linkCount = 0) (anchored : path.anchor = .root)
    (plain : ∀ name ∈ path.names, IsPlain name) (noNull : path.hasNull = false)
    {entry : Entry} (known : tree.root.at? path.names = some entry) :
    tree.lookup path = .ok (path.names, entry) ∨ tree.lookup path = .error .tooLong := by
  have absolute : path.isAbsolute = true := by
    rw [Path.isAbsolute, anchored]
    rfl
  unfold lookup
  rw [if_neg (by simp [noNull])]
  split
  · exact .inr rfl
  · have followed : tree.follow linkLimit [] path.names = _ :=
      @advance_at? tree unlinked _ [] path.names entry known plain
    rw [fullNames_of_isAbsolute absolute, followed]
    split
    · exact .inl rfl
    · exact .inr rfl

/-- What an absolute path leads to in a tree without links is found at its canonical path too. -/
theorem lookup_ofRoot (unlinked : tree.root.linkCount = 0) (absolute : path.isAbsolute = true)
    {names : List String} {entry : Entry} (found : tree.lookup path = .ok (names, entry)) :
    tree.lookup (.ofRoot names) = .ok (names, entry) := by
  obtain ⟨resolved, known, plain⟩ := resolve?_of_lookup found
  obtain ⟨noNull, followed⟩ := follow_of_lookup found
  have normal : names = Path.normalNames path.names :=
    congrArg Path.names (normalNames_of_resolve? unlinked absolute resolved)
  have sublist : names.Sublist path.names := normal ▸ Path.normalNames_sublist path.names
  have fits : ∀ name ∈ names, name.utf8ByteSize ≤ nameLimit := by
    intro name member
    rw [fullNames_of_isAbsolute absolute] at followed
    exact fits_of_advance unlinked followed name (sublist.subset member) (plain name member)
  have short : ¬textLimit < (Path.ofRoot names).text.utf8ByteSize := by
    have longer := Path.utf8ByteSize_text_le absolute sublist
    unfold lookup at found
    rw [if_neg (by simp [noNull])] at found
    split at found
    · cases found
    · omega
  have stillNoNull : (Path.ofRoot names).hasNull = false := by
    unfold Path.hasNull at noNull ⊢
    rw [List.any_eq_false] at noNull ⊢
    exact fun name member => noNull name (sublist.subset member)
  unfold lookup
  rw [if_neg (by simp [stillNoNull]), if_neg short]
  exact (@advance_at? tree unlinked _ [] names entry known plain).trans (if_pos fits)

end FileTree
end ModuleAtlas
