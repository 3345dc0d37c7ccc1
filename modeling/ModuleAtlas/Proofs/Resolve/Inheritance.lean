import ModuleAtlas.Proofs.Resolve.Extended

/-!
# What a chain of compiler options gives

The base for bare specifiers and the patterns are each taken from the first file of a chain with
such an option, whichever file gives the other one.  The files after the first one are canonical, so
a file tree has fewer of them than the chain may have steps, and it is followed to its end.
-/

namespace ModuleAtlas
namespace Resolver

variable {tree : FileTree} {root first file : Path} {chain visited : List Path}

/-! ## Options that make aliases -/

/-- Compiler options say where bare specifiers start from, or hold patterns for them. -/
def MakesAliases (options : Json) : Prop :=
  (∃ text, compilerOption options "baseUrl" = some (.string text)) ∨
    ∃ patterns, compilerOption options "paths" = some (.object patterns)

/-- The options in a file make aliases. -/
def HoldsAliases (tree : FileTree) (file : Path) : Prop :=
  ∃ options, HoldsOptions tree file options ∧ MakesAliases options

/-! ## First options -/

/-- A compiler option of a file, as far as it can be read in a given way. -/
def givenOption? (tree : FileTree) (key : String) (read : Json → Option α) (file : Path) :
    Option α :=
  (readObject tree file Json.stripComments .noOptions).toOption.bind fun options =>
    (compilerOption options key).bind read

/-- The entries of an object. -/
def objectEntries? : Json → Option (List (String × Json))
  | .object entries => some entries
  | _ => none

/-- The base for bare specifiers that a file of compiler options names. -/
def baseText? (tree : FileTree) : Path → Option String := givenOption? tree "baseUrl" Json.text?

/-- The patterns for bare specifiers that stand in a file of compiler options. -/
def listedPatterns? (tree : FileTree) : Path → Option (List (String × Json)) :=
  givenOption? tree "paths" objectEntries?

/-- The first file of a chain that gives something, with what it gives. -/
def firstGiven? (given : Path → Option α) (chain : List Path) : Option (Path × α) :=
  chain.findSome? fun file => (given file).map fun value => (file, value)

section Given

variable {given : Path → Option α} {options : Json}

theorem givenOption?_of_holds
    (held : HoldsOptions tree file options) (key : String) (read : Json → Option α) :
    givenOption? tree key read file = (compilerOption options key).bind read := by
  unfold givenOption?
  rw [held]
  rfl

theorem givenOption?_of_unread
    (unread : ∀ options, ¬HoldsOptions tree file options) (key : String) (read : Json → Option α) :
    givenOption? tree key read file = none := by
  unfold givenOption?
  cases outcome : readObject tree file Json.stripComments .noOptions with
  | ok options => exact absurd outcome (unread options)
  | error failure => rfl

theorem baseText?_eq_some_iff (held : HoldsOptions tree file options) {text : String} :
    baseText? tree file = some text ↔ compilerOption options "baseUrl" = some (.string text) := by
  rw [baseText?, givenOption?_of_holds held, Option.bind_eq_some_iff]
  constructor
  · rintro ⟨value, found, isText⟩
    cases value with
    | string other =>
      cases isText
      exact found
    | _ => cases isText
  · exact fun found => ⟨_, found, rfl⟩

theorem listedPatterns?_eq_some_iff
    (held : HoldsOptions tree file options) {patterns : List (String × Json)} :
    listedPatterns? tree file = some patterns ↔
      compilerOption options "paths" = some (.object patterns) := by
  rw [listedPatterns?, givenOption?_of_holds held, Option.bind_eq_some_iff]
  constructor
  · rintro ⟨value, found, isObject⟩
    cases value with
    | object entries =>
      cases isObject
      exact found
    | _ => cases isObject
  · exact fun found => ⟨_, found, rfl⟩

/-- A file makes aliases when it gives a base or patterns. -/
theorem holdsAliases_iff :
    HoldsAliases tree file ↔ baseText? tree file ≠ none ∨ listedPatterns? tree file ≠ none := by
  by_cases read : ∃ options, HoldsOptions tree file options
  · obtain ⟨options, held⟩ := read
    have makes : HoldsAliases tree file ↔ MakesAliases options := by
      constructor
      · rintro ⟨again, againHeld, makes⟩
        rwa [← againHeld.unique held]
      · exact fun makes => ⟨options, held, makes⟩
    simp only [makes, MakesAliases, Option.ne_none_iff_exists', baseText?_eq_some_iff held,
      listedPatterns?_eq_some_iff held]
  · have unread := not_exists.mp read
    have nothing : ¬HoldsAliases tree file := fun ⟨options, held, _⟩ => unread options held
    simp [nothing, baseText?, listedPatterns?, givenOption?_of_unread unread]

theorem firstGiven?_concat (chain : List Path) (file : Path) :
    firstGiven? given (chain ++ [file]) =
      (firstGiven? given chain).or ((given file).map fun value => (file, value)) := by
  unfold firstGiven?
  rw [List.findSome?_append, List.findSome?_cons]
  cases given file <;> rfl

/-- What is given first stays, unless nothing was given so far. -/
theorem firstGiven?_concat_of_kept (kept : firstGiven? given chain = none → given file = none) :
    firstGiven? given (chain ++ [file]) = firstGiven? given chain := by
  rw [firstGiven?_concat]
  cases before : firstGiven? given chain with
  | some first => rfl
  | none =>
    rw [kept before]
    rfl

theorem firstGiven?_eq_none_iff :
    firstGiven? given chain = none ↔ ∀ file ∈ chain, given file = none := by
  simp [firstGiven?, List.findSome?_eq_none_iff]

end Given

/-! ## One more file -/

theorem compilerOption_of_no_object {options : Json}
    (noObject : ∀ entries, options.get? "compilerOptions" ≠ some (.object entries)) (key : String) :
    compilerOption options key = none := by
  unfold compilerOption
  cases listed : options.get? "compilerOptions" with
  | none => rfl
  | some value =>
    cases value with
    | object entries => exact absurd listed (noObject entries)
    | _ => rfl

/-- A call for the last file of a chain fails: reading it, unless it is just unreadable, resolving
the base that it is the first one to name, or looking for the file that it extends. -/
inductive Raises
    (tree : FileTree) (root : Path) (chain : List Path) (failure : Failure) : Prop where
  | reading {last : Path}
      (isLast : chain.getLast? = some last)
      (refused : Refused tree last failure)
      (serious : ∀ place fault, failure ≠ .manifest place fault) :
      Raises tree root chain failure
  | resolving {last : Path} {text : String}
      (isLast : chain.getLast? = some last)
      (given : firstGiven? (baseText? tree) chain = some (last, text))
      (failed : (Task.resolvePath (last.parent.child text)).outcomeFrom tree (fresh root) =
        .error failure) :
      Raises tree root chain failure
  | extending {last : Path} {options : Json}
      (isLast : chain.getLast? = some last)
      (held : HoldsOptions tree last options)
      (failed : (extendedOptions last (options.get? "extends")).outcomeFrom tree (fresh root) =
        .error failure) :
      Raises tree root chain failure

/-- What a chain has given so far are the first options of its files, resolved against the
directories of the files. -/
structure ChainState.GivenBy (tree : FileTree) (chain : List Path) (state : ChainState) : Prop where
  base : Option.Rel
    (fun given base => tree.resolve? (given.1.parent.child given.2) = some base)
    (firstGiven? (baseText? tree) chain) state.base
  patterns : state.patterns = (firstGiven? (listedPatterns? tree) chain).map Prod.snd
  patternBase : Option.Rel
    (fun given directory => tree.resolve? given.1.parent = some directory)
    (firstGiven? (listedPatterns? tree) chain) state.patternBase

section Extend

variable {state : ChainState} {options : Json} {entries : List (String × Json)}

theorem ChainState.GivenBy.base_eq_none_iff (given : state.GivenBy tree chain) :
    state.base = none ↔ firstGiven? (baseText? tree) chain = none := by
  rw [← Option.isNone_iff_eq_none, ← Option.isNone_iff_eq_none, optionIsNone_eq given.base]

theorem ChainState.GivenBy.patterns_eq_none_iff (given : state.GivenBy tree chain) :
    state.patterns = none ↔ firstGiven? (listedPatterns? tree) chain = none := by
  rw [given.patterns, Option.map_eq_none_iff]

/-- A file without options of its own leaves what a chain has given. -/
theorem ChainState.GivenBy.concat (given : state.GivenBy tree chain)
    (noBase : baseText? tree file = none) (noPatterns : listedPatterns? tree file = none) :
    state.GivenBy tree (chain ++ [file]) := by
  have sameBase : firstGiven? (baseText? tree) (chain ++ [file]) =
      firstGiven? (baseText? tree) chain := firstGiven?_concat_of_kept fun _ => noBase
  have samePatterns : firstGiven? (listedPatterns? tree) (chain ++ [file]) =
      firstGiven? (listedPatterns? tree) chain := firstGiven?_concat_of_kept fun _ => noPatterns
  refine ⟨?_, ?_, ?_⟩
  · rw [sameBase]
    exact given.base
  · rw [samePatterns]
    exact given.patterns
  · rw [samePatterns]
    exact given.patternBase

/-- A file that cannot be read leaves what a chain has given. -/
theorem ChainState.GivenBy.concat_unread (given : state.GivenBy tree chain)
    (unread : Unreadable tree file) :
    state.GivenBy tree (chain ++ [file]) :=
  given.concat (givenOption?_of_unread unread.not_holdsOptions _ _)
    (givenOption?_of_unread unread.not_holdsOptions _ _)

theorem ends_resolveParent (held : HoldsOptions tree file options) {cause : Failure → Prop} :
    Task.Ends tree (Coherent tree root)
      (fun directory => tree.resolve? file.parent = some directory) cause
      (Task.resolvePath file.parent) := by
  obtain ⟨found, looked⟩ := held.lookup
  obtain ⟨noNull, known⟩ := FileTree.resolve?_parent_of_lookup looked
  refine (Task.ends_resolvePath file.parent ?_ ?_).imp (fun _ resolved => resolved.2) fun _ => id
  · intro null
    rw [noNull] at null
    cases null
  · intro endless
    exact absurd endless known

/-- The patterns of a file are taken unless a file before it has some. -/
theorem ends_extendPatterns {base : Option Path} {cause : Failure → Prop}
    (given : state.GivenBy tree visited) (held : HoldsOptions tree file options)
    (option : ∀ key, compilerOption options key = Keyed.find? key entries)
    (based : Option.Rel
      (fun given base => tree.resolve? (given.1.parent.child given.2) = some base)
      (firstGiven? (baseText? tree) (visited ++ [file])) base) :
    Task.Ends tree (Coherent tree root) (ChainState.GivenBy tree (visited ++ [file])) cause (do
      match state.patterns, Keyed.find? "paths" entries with
      | none, some (.object patterns) =>
        return (⟨base, some patterns, some (← Task.resolvePath file.parent)⟩ : ChainState)
      | patterns, _ => return (⟨base, patterns, state.patternBase⟩ : ChainState)) := by
  split
  · rename_i patterns unset found
    have own : listedPatterns? tree file = some patterns := by
      rw [listedPatterns?_eq_some_iff held, option, found]
    have isFirst : firstGiven? (listedPatterns? tree) (visited ++ [file]) =
        some (file, patterns) := by
      rw [firstGiven?_concat, given.patterns_eq_none_iff.mp unset, own]
      rfl
    refine (ends_resolveParent held).map fun directory known => ⟨based, ?_, ?_⟩
    · rw [isFirst]
      rfl
    · rw [isFirst]
      exact .some known
  · rename_i kept
    have same : firstGiven? (listedPatterns? tree) (visited ++ [file]) =
        firstGiven? (listedPatterns? tree) visited := by
      apply firstGiven?_concat_of_kept
      intro noneBefore
      apply Option.eq_none_iff_forall_ne_some.mpr
      intro patterns own
      rw [listedPatterns?_eq_some_iff held, option] at own
      exact kept patterns (given.patterns_eq_none_iff.mpr noneBefore) own
    refine Task.ends_pure ⟨based, ?_, ?_⟩
    · rw [same]
      exact given.patterns
    · rw [same]
      exact given.patternBase

/-- A file gives what no file before it gives. -/
theorem ends_extend (given : state.GivenBy tree visited) (held : HoldsOptions tree file options) :
    Task.Ends tree (Coherent tree root) (ChainState.GivenBy tree (visited ++ [file]))
      (Raises tree root (visited ++ [file]))
      (state.extend file (options.get? "compilerOptions")) := by
  unfold ChainState.extend
  split
  · rename_i entries listed
    have option : ∀ key, compilerOption options key = Keyed.find? key entries := by
      intro key
      rw [compilerOption, listed]
      rfl
    dsimp only
    split
    · rename_i text unset found
      have own : baseText? tree file = some text := by
        rw [baseText?_eq_some_iff held, option, found]
      have isFirst : firstGiven? (baseText? tree) (visited ++ [file]) = some (file, text) := by
        rw [firstGiven?_concat, given.base_eq_none_iff.mp unset, own]
        rfl
      have resolves : Task.Ends tree (Coherent tree root)
          (fun resolved => tree.resolve? (file.parent.child text) = some resolved)
          (Raises tree root (visited ++ [file])) (Task.resolvePath (file.parent.child text)) := by
        refine ((Task.steady_resolvePath _).ends_outcomeFrom coherent_fresh).imp ?_ ?_
        · exact fun resolved known => known.1.2
        · exact fun failure failed => .resolving (by simp) isFirst failed
      refine resolves.bind fun resolved known => ?_
      refine (ends_extendPatterns given held option ?_).pure_bind
      rw [isFirst]
      exact .some known
    · rename_i kept
      refine (ends_extendPatterns given held option ?_).pure_bind
      rw [firstGiven?_concat_of_kept]
      · exact given.base
      · intro noneBefore
        apply Option.eq_none_iff_forall_ne_some.mpr
        intro text own
        rw [baseText?_eq_some_iff held, option] at own
        exact kept text (given.base_eq_none_iff.mpr noneBefore) own
  · rename_i noObject
    have option := compilerOption_of_no_object noObject
    refine Task.ends_pure (given.concat ?_ ?_)
    · rw [baseText?, givenOption?_of_holds held, option]
      rfl
    · rw [listedPatterns?, givenOption?_of_holds held, option]
      rfl

theorem ends_extendedOptions (held : HoldsOptions tree file options) :
    Task.Ends tree (Coherent tree root)
      (fun further =>
        (extendedOptions file (options.get? "extends")).outcomeFrom tree (fresh root) = .ok further)
      (Raises tree root (visited ++ [file])) (extendedOptions file (options.get? "extends")) := by
  refine ((steady_extendedOptions file _).alone.ends_outcomeFrom coherent_fresh).imp ?_ ?_
  · exact fun further leads => leads.2
  · exact fun failure failed => .extending (by simp) held failed

end Extend

/-! ## The whole chain -/

/-- A call fails on the chain of compiler options that starts with a file. -/
def RaisesAlong (tree : FileTree) (root first : Path) (failure : Failure) : Prop :=
  ∃ chain, IsWalk tree first chain ∧ Raises tree root chain failure

/-- A chain that was followed from a first file to its end. -/
structure Followed (tree : FileTree) (root first : Path) (chain : List Path) : Prop where
  linked : chain.IsChain (Inherits tree root)
  walk : IsWalk tree first chain
  stops : Stops tree chain

/-- What is known while a chain is followed from a first file: the files visited so far lead to the
next one, none was visited twice, and the options so far are those of the visited files. -/
structure Walked
    (tree : FileTree) (root first : Path) (visited : List Path) (state : ChainState)
    (next : Option Path) : Prop where
  starts : (visited ++ next.toList).head? = some first
  linked : (visited ++ next.toList).IsChain (Inherits tree root)
  distinct : visited.Nodup
  given : state.GivenBy tree visited
  ended : next = none → Stops tree visited
  placed : ∀ file, next = some file → file ∈ insert first tree.located

section Chain

variable {state result : ChainState} {next further : Option Path} {options : Json}

theorem walked_start (tree : FileTree) (root first : Path) :
    Walked tree root first [] ⟨none, none, none⟩ (some first) where
  starts := rfl
  linked := by simp
  distinct := List.nodup_nil
  given := ⟨.none, rfl, .none⟩
  ended := nofun
  placed := by
    rintro file ⟨⟩
    exact Finset.mem_insert_self _ _

/-- Whatever was found to be extended is. -/
theorem isChain_extendsFile (linked : chain.IsChain (Inherits tree root)) :
    chain.IsChain (ExtendsFile tree) :=
  linked.imp fun _ _ inherits => inherits.extendsFile

/-- The visited files before the next one make a chain. -/
theorem Walked.isWalk (walked : Walked tree root first visited state next)
    (nonempty : visited ≠ []) :
    IsWalk tree first visited where
  starts := by rw [← walked.starts, List.head?_append_of_ne_nil _ nonempty]
  linked := isChain_extendsFile (List.isChain_append.mp walked.linked).1
  distinct := walked.distinct

theorem Walked.isWalk_concat (walked : Walked tree root first visited state (some file))
    (new : file ∉ visited) :
    IsWalk tree first (visited ++ [file]) where
  starts := walked.starts
  linked := isChain_extendsFile walked.linked
  distinct := by
    rw [List.nodup_append_comm]
    exact List.nodup_cons.mpr ⟨new, walked.distinct⟩

theorem Walked.followed_of_none (walked : Walked tree root first visited state none) :
    Followed tree root first visited where
  linked := (List.isChain_append.mp walked.linked).1
  walk := walked.isWalk (by rintro rfl; cases walked.starts)
  stops := walked.ended rfl

section

variable (walked : Walked tree root first visited state (some file))

include walked

/-- A chain that comes back to a visited file ends before it. -/
theorem Walked.followed_of_met (met : file ∈ visited) :
    Followed tree root first visited where
  linked := (List.isChain_append.mp walked.linked).1
  walk := walked.isWalk (List.ne_nil_of_mem met)
  stops := by
    have isLast := List.getLast?_eq_some_getLast (List.ne_nil_of_mem met)
    have inherits := (List.isChain_append.mp walked.linked).2.2 _ isLast file (by simp)
    exact .met isLast inherits.extendsFile met

theorem Walked.followed_of_unreadable (new : file ∉ visited) (unread : Unreadable tree file) :
    Followed tree root first (visited ++ [file]) where
  linked := walked.linked
  walk := walked.isWalk_concat new
  stops := .unreadable (by simp) unread

/-- Going on from a file that was read. -/
theorem Walked.advance (new : file ∉ visited) (held : HoldsOptions tree file options)
    (given : result.GivenBy tree (visited ++ [file]))
    (leads : (extendedOptions file (options.get? "extends")).outcomeFrom tree (fresh root) =
      .ok further) :
    Walked tree root first (visited ++ [file]) result further where
  starts := by
    rw [List.head?_append_of_ne_nil _ (by simp)]
    exact walked.starts
  linked := by
    refine List.isChain_append.mpr ⟨walked.linked, ?_, ?_⟩
    · cases further <;> simp
    · rintro last isLast other isNext
      have same : last = file := by simpa using isLast.symm
      have leadsOn : further = some other := by
        cases further with
        | none => simp at isNext
        | some another => simpa using isNext
      rw [same]
      exact ⟨options, held, leadsOn ▸ leads⟩
  distinct := (walked.isWalk_concat new).distinct
  given := given
  ended := by
    rintro rfl
    exact .alone (by simp) held (extendedFile?_of_leads leads).symm
  placed := by
    intro other isNext
    exact Finset.mem_insert_of_mem (located_of_extendedOptions held leads other isNext)

end

/-- Following a chain of compiler options visits its files up to the end, and gathers what these
give. -/
theorem ends_followChain (fuel : Nat) (walked : Walked tree root first visited state next)
    (enough : remaining (insert first tree.located) visited.reverse < fuel) :
    Task.Ends tree (Coherent tree root)
      (fun result => ∃ chain, Followed tree root first chain ∧ result.GivenBy tree chain)
      (RaisesAlong tree root first) (followChain fuel visited.reverse state next) := by
  induction fuel generalizing visited state next with
  | zero => exact absurd enough (Nat.not_lt_zero _)
  | succ fuel ih =>
    cases next with
    | none => exact Task.ends_pure ⟨visited, walked.followed_of_none, walked.given⟩
    | some file =>
      unfold followChain
      split
      · rename_i seen
        have met : file ∈ visited := by simpa using seen
        exact Task.ends_pure ⟨visited, walked.followed_of_met met, walked.given⟩
      · rename_i unseen
        have new : file ∉ visited := by simpa using unseen
        have walk := walked.isWalk_concat new
        refine (ends_readOptions_refused file).attempt.bind fun outcome ofOne => ?_
        cases ofOne with
        | @error failure refused =>
          split
          · rename_i place fault same
            cases same
            have unread : Unreadable tree file := ⟨place, fault, refused⟩
            refine (Task.ends_note _).bind fun _ _ => Task.ends_pure ?_
            exact ⟨_, walked.followed_of_unreadable new unread, walked.given.concat_unread unread⟩
          · rename_i serious same
            cases same
            exact Task.ends_fail ⟨_, walk, .reading (by simp) refused serious⟩
          · rename_i impossible
            cases impossible
        | @ok options held =>
          have raises : ∀ failure, Raises tree root (visited ++ [file]) failure →
              RaisesAlong tree root first failure := fun _ raised => ⟨_, walk, raised⟩
          refine ((ends_extend walked.given held).imp (fun _ => id) raises).bind ?_
          intro result given
          refine ((ends_extendedOptions held).imp (fun _ => id) raises).bind ?_
          intro further leads
          have ahead : file ∉ visited.reverse := by simpa using new
          have fewer := remaining_cons_lt (walked.placed file rfl) ahead
          rw [← List.reverse_concat] at fewer ⊢
          exact ih (walked.advance new held given leads) (by omega)

end Chain

/-! ## Aliases -/

/-- The texts among the targets of a pattern, in their order. -/
inductive Targets : List Json → List String → Prop where
  | nil : Targets [] []
  | text {items : List Json} {texts : List String} (text : String) (more : Targets items texts) :
      Targets (.string text :: items) (text :: texts)
  | other {item : Json} {items : List Json} {texts : List String}
      (noText : ∀ text, item ≠ .string text) (more : Targets items texts) :
      Targets (item :: items) texts

/-- The patterns that an option lists: its entries with a list, in their order, each with the texts
in its list. -/
inductive Lists : List (String × Json) → List (String × List String) → Prop where
  | nil : Lists [] []
  | pattern {items : List Json} {texts : List String} {entries : List (String × Json)}
      {patterns : List (String × List String)} (name : String) (targets : Targets items texts)
      (more : Lists entries patterns) :
      Lists ((name, .array items) :: entries) ((name, texts) :: patterns)
  | other {name : String} {value : Json} {entries : List (String × Json)}
      {patterns : List (String × List String)} (noList : ∀ items, value ≠ .array items)
      (more : Lists entries patterns) :
      Lists ((name, value) :: entries) patterns

theorem targets_texts (items : List Json) : Targets items (Json.texts items) := by
  induction items with
  | nil => exact .nil
  | cons item items ih =>
    cases item with
    | string text => exact .text text ih
    | _ => exact .other (by simp) ih

/-- The patterns that are kept are those that the option lists. -/
theorem lists_usablePatterns (entries : List (String × Json)) :
    Lists entries (usablePatterns entries) := by
  induction entries with
  | nil => exact .nil
  | cons entry entries ih =>
    obtain ⟨name, value⟩ := entry
    cases value with
    | array items => exact .pattern name (targets_texts items) ih
    | _ => exact .other (by simp) ih

/-- The aliases that a chain of compiler options gives: the base of the first file that names one,
and the patterns of the first file with some.  The targets of the patterns start from the base, or
else from the directory of the file with the patterns. -/
inductive Gives (tree : FileTree) (chain : List Path) : Option Resolve.Aliases → Prop where
  | nothing
      (noBase : firstGiven? (baseText? tree) chain = none)
      (noPatterns : firstGiven? (listedPatterns? tree) chain = none) :
      Gives tree chain none
  | base {giver base : Path} {text : String} {patterns : List (String × List String)}
      (named : firstGiven? (baseText? tree) chain = some (giver, text))
      (known : tree.resolve? (giver.parent.child text) = some base)
      (listed : Lists (((firstGiven? (listedPatterns? tree) chain).map Prod.snd).getD [])
        patterns) :
      Gives tree chain (some ⟨some base, base, patterns⟩)
  | patterns {giver directory : Path} {entries : List (String × Json)}
      {patterns : List (String × List String)}
      (noBase : firstGiven? (baseText? tree) chain = none)
      (given : firstGiven? (listedPatterns? tree) chain = some (giver, entries))
      (known : tree.resolve? giver.parent = some directory)
      (listed : Lists entries patterns) :
      Gives tree chain (some ⟨none, directory, patterns⟩)

/-- There are aliases exactly when some file of the chain makes some. -/
theorem Gives.isSome_iff {found : Option Resolve.Aliases} (gives : Gives tree chain found) :
    found.isSome = true ↔ ∃ giver ∈ chain, HoldsAliases tree giver := by
  have nothing : (¬∃ giver ∈ chain, HoldsAliases tree giver) ↔
      firstGiven? (baseText? tree) chain = none ∧
        firstGiven? (listedPatterns? tree) chain = none := by
    simp only [firstGiven?_eq_none_iff, holdsAliases_iff, not_exists, not_and, not_or,
      Decidable.not_not]
    exact forall₂_and
  rw [← not_iff_not, nothing]
  cases gives with
  | nothing noBase noPatterns => simp [noBase, noPatterns]
  | base named known listed => simp [named]
  | patterns noBase given known listed => simp [given]

section Loading

variable {state : ChainState}

theorem ChainState.GivenBy.gives_none (given : state.GivenBy tree chain)
    (unset : (state.base.isNone && state.patterns.isNone) = true) :
    Gives tree chain none := by
  rw [Bool.and_eq_true, Option.isNone_iff_eq_none, Option.isNone_iff_eq_none] at unset
  exact .nothing (given.base_eq_none_iff.mp unset.1) (given.patterns_eq_none_iff.mp unset.2)

theorem ChainState.GivenBy.gives_some (given : state.GivenBy tree chain)
    (set : ¬(state.base.isNone && state.patterns.isNone) = true) (directory : Path) :
    Gives tree chain (some ⟨state.base, state.base.getD (state.patternBase.getD directory),
      usablePatterns (state.patterns.getD [])⟩) := by
  rcases optionRel_cases given.base with
    ⟨noBase, baseUnset⟩ | ⟨⟨giver, text⟩, base, named, baseSet, known⟩
  · rcases optionRel_cases given.patternBase with
      ⟨noPatterns, -⟩ | ⟨⟨giver, patterns⟩, directory, listed, patternBase, known⟩
    · have patternsUnset := given.patterns_eq_none_iff.mpr noPatterns
      simp [baseUnset, patternsUnset] at set
    · rw [baseUnset, patternBase, given.patterns, listed]
      exact .patterns noBase listed known (lists_usablePatterns patterns)
  · rw [baseSet, given.patterns]
    exact .base named known (lists_usablePatterns _)

/-- Loading aliases follows the chain of a file to its end, unless a call on the chain fails. -/
theorem ends_loadAliases (file : Path) :
    Task.Ends tree (Coherent tree root)
      (fun found => ∃ chain, Followed tree root file chain ∧ Gives tree chain found)
      (RaisesAlong tree root file) (loadAliases file) := by
  refine Task.ends_files.bind ?_
  rintro files rfl
  have enough : remaining (insert file files.located) [] < files.root.count + 2 := by
    rw [remaining_nil]
    have card := files.card_located_le
    have more := Finset.card_insert_le file files.located
    omega
  refine (ends_followChain _ (walked_start files root file) enough).bind ?_
  rintro state ⟨chain, followed, given⟩
  split
  · rename_i unset
    exact Task.ends_pure ⟨chain, followed, given.gives_none unset⟩
  · rename_i set
    exact Task.ends_pure ⟨chain, followed, given.gives_some set file.parent⟩

/-- Unless a call fails on it, the chain of compiler options from a file on is followed to its one
end, and the aliases are made of the first options on it; there are none exactly when no file of the
chain gives any. -/
theorem loadAliases_first_options (tree : FileTree) (root file : Path) :
    Task.Ends tree (Coherent tree root)
      (fun found => ∃ chain, IsWalk tree file chain ∧ Stops tree chain ∧
        (∀ other, IsWalk tree file other → Stops tree other → other = chain) ∧
        Gives tree chain found ∧
        (found = none ↔ ∀ giver ∈ chain,
          baseText? tree giver = none ∧ listedPatterns? tree giver = none))
      (RaisesAlong tree root file) (loadAliases file) := by
  refine (ends_loadAliases file).imp ?_ fun _ => id
  rintro found ⟨chain, followed, gives⟩
  refine ⟨chain, followed.walk, followed.stops, ?_, gives, ?_⟩
  · intro other walk stops
    exact walk.unique stops followed.walk followed.stops
  · rw [← Option.not_isSome_iff_eq_none, gives.isSome_iff]
    simp [holdsAliases_iff]

end Loading

/-- The options of a file that extends another one and names a base. -/
def baseOptions : String :=
  "\x7b\"extends\": \"./b\", \"compilerOptions\": \x7b\"baseUrl\": \"src\"\x7d\x7d"

/-- The options of a file that extends others and has another base and patterns. -/
def patternOptions : String :=
  "\x7b\"extends\": [\"./c\", \"./a\"], \"compilerOptions\": "
    ++ "\x7b\"baseUrl\": \"lib\", \"paths\": \x7b\"x\": [\"y\"]\x7d\x7d\x7d"

/-- Two files of compiler options that extend each other. -/
def circularOptions : FileTree :=
  ⟨.directory [("a.json", .file baseOptions.toUTF8 none),
    ("b.json", .file patternOptions.toUTF8 none)], []⟩

/-- The aliases with the base of the first of these files and the patterns of the second. -/
def circularAliases : Resolve.Aliases :=
  ⟨some (.ofRoot ["src"]), .ofRoot ["src"], [("x", ["y"])]⟩

/-- The base comes from the file that the chain starts from, and the patterns from the one that it
extends. -/
theorem options_of_two_files :
    (loadAliases (.ofRoot ["a.json"])).outcomeFrom circularOptions (fresh (.ofRoot [])) =
        .ok (some circularAliases) ∧
      baseText? circularOptions (.ofRoot ["a.json"]) = some "src" ∧
      (listedPatterns? circularOptions (.ofRoot ["a.json"])).isNone = true ∧
      baseText? circularOptions (.ofRoot ["b.json"]) = some "lib" ∧
      ∃ chain, IsWalk circularOptions (.ofRoot ["a.json"]) chain ∧ Stops circularOptions chain ∧
        Gives circularOptions chain (some circularAliases) := by
  have ran : (loadAliases (.ofRoot ["a.json"])).outcomeFrom circularOptions (fresh (.ofRoot [])) =
      .ok (some circularAliases) := by
    decide +kernel
  obtain ⟨chain, walk, stops, -, gives, -⟩ :=
    (loadAliases_first_options circularOptions (.ofRoot []) (.ofRoot ["a.json"])).kind_of_answer
      coherent_fresh ran
  exact ⟨ran, by decide +kernel, by decide +kernel, by decide +kernel, chain, walk, stops, gives⟩

end Resolver
end ModuleAtlas
