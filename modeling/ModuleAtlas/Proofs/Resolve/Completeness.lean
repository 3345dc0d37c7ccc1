import ModuleAtlas.Proofs.Resolve.Defects

/-!
# Specifiers come to resolutions

Path aliases, workspace packages and installed packages are tried one after the other, and only
defects stop this.  Following a chain of compiler options ends quietly at the first file that is not
well-formed; what is taken from the chain stands in files that could be read, and so a defect can
always be told by the text that is at fault.
-/

namespace ModuleAtlas
namespace Resolver

variable {tree : FileTree} {root start : Path} {specifier : String}

/-! ## Path aliases -/

/-- Why there are no compiler options in a file: it is not well-formed, or there is a defect. -/
def Unread (tree : FileTree) (root start : Path) (specifier : String) (file : Path)
    (failure : Failure) : Prop :=
  (∃ fault, failure = .manifest file fault) ∨ Defect tree root start specifier failure

variable {file : Path} {options : Json}

theorem ends_readOptions (null : file.hasNull = true → Sought tree start file) :
    Task.Ends tree (Coherent tree root) (HoldsOptions tree file)
      (Unread tree root start specifier file) (readOptions file) := by
  unfold readOptions
  cases holds : file.hasNull with
  | true =>
    have stops : Task.Ends tree (Coherent tree root) (fun _ => False)
        (Unread tree root start specifier file)
        (Task.fail (.nullCharacter file) : Task Resolver Unit) :=
      Task.ends_fail (.inr (.null (null holds) holds))
    exact stops.bind fun _ impossible => impossible.elim
  | false =>
    refine Task.ends_files.bind ?_
    rintro _ rfl
    cases read : readObject _ file Json.stripComments .noOptions with
    | ok options => exact Task.ends_pure read
    | error failure =>
      refine Task.ends_fail ((readObject_error read).imp_right ?_)
      rintro ⟨fault, refuses, rfl⟩
      exact .content (.inr rfl) refuses

theorem stopped_attempt_readOptions (null : file.hasNull = true → Sought tree start file) :
    Stopped tree root start specifier
      (Task.OutcomeOf (HoldsOptions tree file) (Unread tree root start specifier file))
      (Task.attempt (readOptions file)) :=
  (ends_readOptions null).attempt

theorem stopped_withOptionsEnding {path : Path}
    (blamed : path.names = [] → Defect tree root start specifier .unnamedPath) :
    Stopped tree root start specifier (fun _ => True) (withOptionsEnding path) := by
  refine (stopped_isFile path).bind fun isFile _ => ?_
  cases isFile with
  | true => exact Task.ends_pure trivial
  | false =>
    simp only [Bool.false_eq_true, if_false]
    split
    · exact stopped_withEnding _ blamed
    · exact Task.ends_pure trivial

theorem names_child_optionsName (directory : Path) : (directory.child optionsName).names ≠ [] := by
  have read : Path.ofText optionsName = ⟨.here, [optionsName]⟩ := by decide +kernel
  simp [Path.child, Path.append, Path.isAbsolute, read]

/-- A file of compiler options that others extend is the canonical path of a file. -/
def Extends (tree : FileTree) (next : Option Path) : Prop :=
  ∀ file, next = some file → ∃ path, IsFileAt tree path ∧ tree.resolve? path = some file

theorem extends_none : Extends tree none := by
  intro file impossible
  cases impossible

/-- The options that are extended, once it is known where they should be. -/
theorem stopped_extended (target : Option Path) :
    Stopped tree root start specifier (Extends tree) (do
      match target with
      | none => return none
      | some target =>
        if ← Task.isFile target then return some (← Task.resolvePath target)
        else return none) := by
  cases target with
  | none => exact Task.ends_pure extends_none
  | some target =>
    refine (stopped_isFile target).bind fun isFile outcome => ?_
    cases isFile with
    | false => exact Task.ends_pure extends_none
    | true =>
      refine (stopped_canonical outcome).map ?_
      rintro resolved known _ ⟨⟩
      exact ⟨target, outcome, known⟩

theorem stopped_extendedOptions (held : HoldsOptions tree file options) :
    Stopped tree root start specifier (Extends tree)
      (extendedOptions file (options.get? "extends")) := by
  unfold extendedOptions
  dsimp only
  split
  · exact Task.ends_pure extends_none
  · rename_i text chosen
    have listed : extendedText? (options.get? "extends") = some text := chosen
    split
    · refine (stopped_withOptionsEnding (.unnamed (.extended held listed))).bind ?_
      exact fun target _ => (stopped_extended (some target)).pure_bind
    · refine (stopped_findInstalled _ (stopped_parent held)).bind fun directory _ => ?_
      cases directory with
      | none => exact (stopped_extended none).pure_bind
      | some directory =>
        dsimp only
        split
        · refine (stopped_withOptionsEnding fun nameless => ?_).bind ?_
          · exact absurd nameless (names_child_optionsName directory)
          · exact fun target _ => (stopped_extended (some target)).pure_bind
        · refine (stopped_withOptionsEnding (.unnamed (.inner held listed))).bind ?_
          exact fun target _ => (stopped_extended (some target)).pure_bind

/-- The patterns that a chain of compiler options has given so far are those of one file. -/
def ChainState.Written (tree : FileTree) (chain : ChainState) : Prop :=
  ∀ patterns, chain.patterns = some patterns → ∃ file options, HoldsOptions tree file options ∧
    compilerOption options "paths" = some (.object patterns)

variable {chain : ChainState} {directory : Path}

/-- The patterns of a file are taken unless a file before it has some. -/
theorem stopped_extendPatterns {entries : List (String × Json)} (written : chain.Written tree)
    (held : HoldsOptions tree file options)
    (listed : options.get? "compilerOptions" = some (.object entries)) (base : Option Path) :
    Stopped tree root start specifier (ChainState.Written tree) (do
      match chain.patterns, Keyed.find? "paths" entries with
      | none, some (.object patterns) =>
        return (⟨base, some patterns, some (← Task.resolvePath file.parent)⟩ : ChainState)
      | patterns, _ => return (⟨base, patterns, chain.patternBase⟩ : ChainState)) := by
  split
  · rename_i patterns _ found
    refine (stopped_parent held).map ?_
    rintro resolved _ _ ⟨⟩
    refine ⟨file, options, held, ?_⟩
    unfold compilerOption
    rw [listed]
    exact found
  · exact Task.ends_pure written

theorem stopped_extend (written : chain.Written tree) (held : HoldsOptions tree file options) :
    Stopped tree root start specifier (ChainState.Written tree)
      (chain.extend file (options.get? "compilerOptions")) := by
  unfold ChainState.extend
  split
  · rename_i entries listed
    dsimp only
    split
    · rename_i text _ found
      have base : compilerOption options "baseUrl" = some (.string text) := by
        unfold compilerOption
        rw [listed]
        exact found
      refine (stopped_resolvePath _ (.base held base)).bind fun resolved _ => ?_
      exact (stopped_extendPatterns written held listed (some resolved)).pure_bind
    · exact (stopped_extendPatterns written held listed _).pure_bind
  · exact Task.ends_pure written

/-- A chain of configurations stops only at a defect. -/
theorem stopped_followChain (fuel : Nat) (seen : List Path) {next : Option Path}
    (written : chain.Written tree)
    (null : ∀ file, next = some file → file.hasNull = true → Sought tree start file) :
    Stopped tree root start specifier (ChainState.Written tree)
      (followChain fuel seen chain next) := by
  induction fuel generalizing seen chain next with
  | zero => exact Task.ends_pure written
  | succ fuel ih =>
    cases next with
    | none => exact Task.ends_pure written
    | some file =>
      unfold followChain
      split
      · exact Task.ends_pure written
      · refine (stopped_attempt_readOptions (null file rfl)).bind fun outcome ofOne => ?_
        cases ofOne with
        | @error failure caused =>
          rcases caused with ⟨fault, rfl⟩ | defect
          · exact (Task.ends_note _).bind fun _ _ => Task.ends_pure written
          · split
            · exact (Task.ends_note _).bind fun _ _ => Task.ends_pure written
            · rename_i failed
              cases failed
              exact Task.ends_fail defect
            · rename_i impossible
              cases impossible
        | @ok options held =>
          refine (stopped_extend written held).bind fun chain written => ?_
          refine (stopped_extendedOptions held).bind fun next isExtended => ?_
          refine ih _ written fun file same _ => ?_
          obtain ⟨path, isFile, known⟩ := isExtended file same
          exact .extended isFile known

/-- All targets of aliases stand in files with compiler options. -/
def TargetsWritten (tree : FileTree) (found : Option Resolve.Aliases) : Prop :=
  ∀ aliases, found = some aliases → ∀ entry ∈ aliases.patterns, ∀ target ∈ entry.2,
    HasTarget tree target

theorem targetsWritten_none : TargetsWritten tree none := by
  intro aliases impossible
  cases impossible

theorem hasTarget_of_mem_usablePatterns {patterns : List (String × Json)}
    {entry : String × List String} {target : String} (held : HoldsOptions tree file options)
    (listed : compilerOption options "paths" = some (.object patterns))
    (member : entry ∈ usablePatterns patterns) (targetMember : target ∈ entry.2) :
    HasTarget tree target := by
  obtain ⟨⟨pattern, targets⟩, patternMember, usable⟩ := List.mem_filterMap.mp member
  obtain ⟨items, isList, rfl⟩ := Option.map_eq_some_iff.mp usable
  cases targets with
  | array items =>
    cases isList
    exact ⟨file, options, patterns, pattern, items, held, listed, patternMember, targetMember⟩
  | _ => cases isList

/-- Loading aliases stops only at a defect. -/
theorem stopped_loadAliases (isFile : IsFileAt tree file) :
    Stopped tree root start specifier (TargetsWritten tree) (loadAliases file) := by
  refine Task.ends_files.bind fun found _ => ?_
  have start : ChainState.Written tree ⟨none, none, none⟩ := fun _ impossible => by cases impossible
  refine (stopped_followChain _ [] start ?_).bind fun chain written => ?_
  · rintro _ ⟨⟩ null
    obtain ⟨found, looked⟩ := lookup_of_isFileAt isFile
    rw [(FileTree.follow_of_lookup looked).1] at null
    cases null
  · split
    · exact Task.ends_pure targetsWritten_none
    · refine Task.ends_pure ?_
      rintro _ ⟨⟩ entry member target targetMember
      dsimp only at member
      cases known : chain.patterns with
      | none =>
        rw [known] at member
        cases member
      | some patterns =>
        rw [known] at member
        obtain ⟨file, options, held, listed⟩ := written patterns known
        exact hasTarget_of_mem_usablePatterns held listed member targetMember

theorem stopped_aliasesAlong (directory : Path) :
    Stopped tree root start specifier (TargetsWritten tree)
      (aliasesAlong (ancestors directory)) := by
  refine ancestors_induction (motive := fun directories =>
    Stopped tree root start specifier (TargetsWritten tree) (aliasesAlong directories))
    (Task.ends_pure targetsWritten_none) (fun directory above equal stoppedAbove => ?_) directory
  have steady : Task.Steady tree (Coherent tree root) (fun _ => True)
      (aliasesAlong (directory :: above)) := equal ▸ (steady_aliasesAlong directory).alone
  unfold aliasesAlong at steady ⊢
  refine Task.Ends.recollect ?_ steady coherent_fresh rfl
  refine (stopped_isFile _).bind fun isFile outcome => ?_
  cases isFile with
  | true => exact stopped_loadAliases outcome
  | false => exact stoppedAbove

theorem mem_patterns_of_matchFrom
    {best : Resolve.Aliases.Best} {patterns : List (String × List String)}
    {targets : List String} {captured : String}
    (found : Resolve.Aliases.matchFrom specifier best patterns = some (targets, captured)) :
    (∃ length, best = some (targets, captured, length)) ∨
      ∃ pattern, (pattern, targets) ∈ patterns := by
  fun_induction Resolve.Aliases.matchFrom specifier best patterns with
  | case1 best =>
    obtain ⟨⟨_, _, length⟩, rfl, same⟩ := Option.map_eq_some_iff.mp found
    cases same
    exact .inl ⟨length, rfl⟩
  | case2 best pattern listed rest _ _ =>
    cases found
    exact .inr ⟨pattern, List.mem_cons_self⟩
  | case5 best pattern listed rest start finish _ captured _ _ _ ih =>
    rcases ih found with ⟨_, same⟩ | ⟨other, member⟩
    · cases same
      exact .inr ⟨pattern, List.mem_cons_self⟩
    · exact .inr ⟨other, List.mem_cons_of_mem _ member⟩
  | case3 best pattern listed rest _ _ ih
  | case4 best pattern listed rest _ _ _ _ ih
  | case6 best pattern listed rest _ _ _ _ _ _ _ ih =>
    refine (ih found).imp_right ?_
    exact fun ⟨other, member⟩ => ⟨other, List.mem_cons_of_mem _ member⟩

theorem stopped_resolveTargets
    (aliases : Resolve.Aliases) (captured : String) {targets : List String}
    (written : ∀ target ∈ targets, HasTarget tree target) :
    Stopped tree root start specifier (Finds tree)
      (resolveTargets aliases captured targets) := by
  induction targets with
  | nil => exact Task.ends_pure finds_none
  | cons target rest ih =>
    refine stopped_orElse (stopped_resolveFile (.unnamed (.target (written target ?_)))) ?_
    · exact List.mem_cons_self
    · exact ih fun other member => written other (List.mem_cons_of_mem _ member)

/-- What no pattern leads to is looked for below the base, if there is one. -/
theorem stopped_aliasBase (base : Option Path) {found : Option Path} (finds : Finds tree found) :
    Stopped tree root start specifier (fun outcome => Finds tree outcome.2) (do
      match found, base with
      | some file, _ => return (true, some file)
      | none, some base => return (true, ← resolvePath (base.child specifier))
      | none, none => return (true, none)) := by
  split
  · exact Task.ends_pure finds
  · exact (stopped_resolveFile (.unnamed .specifier)).map fun _ found => found
  · exact Task.ends_pure finds_none

theorem stopped_resolveAlias (importer : Path) :
    Stopped tree root importer.parent specifier (fun outcome => Finds tree outcome.2)
      (resolveAlias specifier importer) := by
  have aliases : Stopped tree root importer.parent specifier (TargetsWritten tree)
      (aliasesIn importer.parent) :=
    (stopped_resolvePath _ .start).bind fun resolved _ => stopped_aliasesAlong resolved
  refine aliases.bind fun aliases written => ?_
  cases aliases with
  | none => exact Task.ends_pure finds_none
  | some aliases =>
    dsimp only
    cases best : aliases.match? specifier with
    | none => exact (stopped_aliasBase aliases.base finds_none).pure_bind
    | some found =>
      have listed : ∀ target ∈ found.1, HasTarget tree target := by
        rcases mem_patterns_of_matchFrom best with ⟨_, impossible⟩ | ⟨pattern, member⟩
        · cases impossible
        · exact written aliases rfl _ member
      exact (stopped_resolveTargets aliases found.2 listed).bind fun found finds =>
        stopped_aliasBase aliases.base finds

/-! ## Workspace packages -/

theorem stopped_workspaceFilePatterns (above : directory ∈ ancestors root) :
    Stopped tree root start specifier
      (fun patterns => ∀ pattern ∈ patterns, Declares tree root directory pattern)
      (workspaceFilePatterns (directory.child workspaceName)) := by
  refine Task.ends_files.bind ?_
  rintro _ rfl
  cases known : FileTree.text? _ (directory.child workspaceName) with
  | none =>
    refine (Task.ends_note _).bind fun _ _ => Task.ends_pure ?_
    exact fun _ impossible => absurd impossible List.not_mem_nil
  | some text =>
    dsimp only [Option.map_some, Option.getD_some]
    split
    · rename_i patterns read
      refine Task.ends_pure fun pattern member => ⟨above, .inr ?_⟩
      exact ⟨text, patterns, known, read, member⟩
    · refine (Task.ends_note _).bind fun _ _ => Task.ends_pure ?_
      exact fun _ impossible => absurd impossible List.not_mem_nil
    · rename_i fault wellFormed refused
      refine Task.ends_fail (.workspace above known refused ?_)
      exact wellFormed

theorem workspacePatterns_null : workspacePatterns .null = [] := rfl

/-- A directory is the root of a workspace, and the patterns are declared there. -/
def DeclaresAll (tree : FileTree) (root : Path) (found : Option (Path × List String)) : Prop :=
  ∀ directory patterns, found = some (directory, patterns) →
    ∀ pattern ∈ patterns, Declares tree root directory pattern

theorem declaresAll_none : DeclaresAll tree root none := by
  intro directory patterns impossible
  cases impossible

/-- The patterns of a workspace file, if there is one, are patterns of its directory. -/
theorem stopped_withFilePatterns {kind : α → Prop} {next : List String → Task Resolver α}
    (here : directory ∈ ancestors root) (isFile : Bool)
    (goesOn : ∀ more, (∀ pattern ∈ more, Declares tree root directory pattern) →
      Stopped tree root start specifier kind (next more)) :
    Stopped tree root start specifier kind
      (if isFile then workspaceFilePatterns (directory.child workspaceName) >>= next
        else pure [] >>= next) := by
  cases isFile with
  | true => exact (stopped_workspaceFilePatterns here).bind goesOn
  | false =>
    refine (goesOn [] ?_).pure_bind
    exact fun _ impossible => absurd impossible List.not_mem_nil

theorem stopped_findWorkspace {directories : List Path}
    (within : ∀ directory ∈ directories, directory ∈ ancestors root) :
    Stopped tree root start specifier (DeclaresAll tree root) (findWorkspace directories) := by
  induction directories with
  | nil => exact Task.ends_pure declaresAll_none
  | cons directory above ih =>
    have here := within directory List.mem_cons_self
    have further := ih fun other member =>
      within other (List.mem_cons_of_mem _ member)
    refine (stopped_readManifestQuietly _).bind fun found known => ?_
    have declared : ∀ pattern ∈ workspacePatterns (found.getD .null),
        Declares tree root directory pattern := by
      intro pattern member
      cases found with
      | none =>
        rw [Option.getD_none, workspacePatterns_null] at member
        cases member
      | some manifest => exact ⟨here, .inl ⟨manifest, known, member⟩⟩
    refine (stopped_isFile _).bind fun isFile _ => ?_
    refine stopped_withFilePatterns here isFile fun more moreDeclared => ?_
    dsimp only
    split
    · exact further
    · refine Task.ends_pure ?_
      rintro _ _ ⟨⟩ pattern member
      exact (List.mem_append.mp member).elim (declared pattern) (moreDeclared pattern)

/-- Patterns that choose no members hold one that is refused. -/
theorem exists_of_chooseMembers_error {found : List Path} {patterns : List String}
    {fault : Glob.MemberFault}
    (refused : chooseMembers tree directory found patterns = .error fault) :
    ∃ written ∈ patterns, ∃ pattern, memberPattern? written = some pattern ∧
      Glob.members tree directory pattern = .error fault := by
  induction patterns generalizing found with
  | nil => cases refused
  | cons written rest ih =>
    unfold chooseMembers at refused
    split at refused
    · obtain ⟨other, member, refusal⟩ := ih refused
      exact ⟨other, List.mem_cons_of_mem _ member, refusal⟩
    · rename_i pattern trimmed
      cases chosen : Glob.members tree directory pattern with
      | error other =>
        rw [chosen] at refused
        cases refused
        exact ⟨written, List.mem_cons_self, pattern, trimmed, chosen⟩
      | ok members =>
        rw [chosen] at refused
        obtain ⟨other, member, refusal⟩ := ih refused
        exact ⟨other, List.mem_cons_of_mem _ member, refusal⟩

theorem stopped_findMembers :
    Stopped tree root start specifier (fun _ => True) findMembers := by
  refine Task.ends_state.bind fun resolver coherent => ?_
  rw [coherent.root_eq]
  refine (stopped_findWorkspace fun _ => id).bind fun workspace declared => ?_
  split
  · exact Task.ends_pure trivial
  · rename_i directory patterns
    refine Task.ends_files.bind ?_
    rintro _ rfl
    split
    · exact Task.ends_pure trivial
    · rename_i fault refused
      obtain ⟨written, member, pattern, trimmed, refusal⟩ := exists_of_chooseMembers_error refused
      refine Task.ends_fail (.pattern ?_ trimmed refusal)
      exact declared directory patterns rfl written member

theorem stopped_workspaceMembers :
    Stopped tree root start specifier (fun _ => True) workspaceMembers :=
  stopped_findMembers.recollect steady_workspaceMembers.alone coherent_fresh rfl

theorem stopped_resolveMember (name subpath : String) (members : List Path) :
    Stopped tree root start specifier (Finds tree) (resolveMember name subpath members) := by
  induction members with
  | nil => exact Task.ends_pure finds_none
  | cons member rest ih =>
    refine (stopped_readManifestQuietly _).bind fun manifest _ => ?_
    dsimp only
    split
    · split
      · exact stopped_orElse (stopped_firstFile? _) (stopped_firstFile? _)
      · exact stopped_firstFile? _
    · exact ih

theorem stopped_resolveWorkspace :
    Stopped tree root start specifier (Finds tree) (resolveWorkspace specifier) :=
  stopped_workspaceMembers.bind fun members _ => stopped_resolveMember _ _ members

/-! ## Specifiers -/

/-- The ways that may have been tried for a specifier that leads to no file. -/
inductive Exhausted (specifier : String) : List Strategy → Prop where
  | nothing (none : specifier = "" ∨ Resolve.isPlatformModule specifier = true) :
      Exhausted specifier []
  | path (isPath : Resolve.isPathSpecifier specifier = true) : Exhausted specifier [.path]
  | bare : Exhausted specifier [.workspace, .installed]
  | aliased : Exhausted specifier [.alias, .workspace, .installed]

/-- A resolution names the canonical path of a file, or all ways there are have been tried. -/
structure Complete (tree : FileTree) (specifier : String) (resolution : Resolution) : Prop where
  settled : Settled tree resolution
  exhausted : resolution.file = none → Exhausted specifier resolution.attempted

theorem stopped_settle {found : Option Path} {attempted : List Strategy} (finds : Finds tree found)
    (exhausted : found = none → Exhausted specifier attempted) :
    Stopped tree root start specifier (Complete tree specifier) (settle found attempted) := by
  cases found with
  | none => exact Task.ends_pure ⟨settled_none attempted, fun _ => exhausted rfl⟩
  | some path =>
    refine (stopped_canonical (finds path rfl)).map fun resolved known => ⟨?_, ?_⟩
    · rintro _ ⟨⟩
      exact ⟨path, finds path rfl, known⟩
    · exact fun impossible => by cases impossible

theorem stopped_resolveBare (importer : Path) :
    Stopped tree root importer.parent specifier (Complete tree specifier)
      (resolveBare specifier importer) := by
  refine (stopped_resolveAlias importer).bind fun outcome finds => ?_
  obtain ⟨applied, found⟩ := outcome
  dsimp only
  split
  · rename_i isSome
    refine stopped_settle finds fun none => ?_
    rw [none] at isSome
    cases isSome
  · refine stopped_resolveWorkspace.bind fun found finds => ?_
    split
    · rename_i isSome
      refine stopped_settle finds fun none => ?_
      rw [none] at isSome
      cases isSome
    · refine stopped_resolveInstalled.bind fun found finds => stopped_settle finds fun _ => ?_
      cases applied with
      | true => exact .aliased
      | false => exact .bare

/-- A package that is named as an input is looked for below the directory that it is seen from. -/
theorem stopped_resolvePackage :
    Stopped tree root start specifier (Finds tree) (resolvePackage specifier start) :=
  stopped_orElse stopped_resolveWorkspace stopped_resolveInstalled

/-- Resolving stops only at a defect. -/
theorem stopped_resolve (importer : Path) :
    Stopped tree root importer.parent specifier (Complete tree specifier)
      (resolve specifier importer) := by
  unfold resolve
  split
  · rename_i isEmpty
    refine Task.ends_pure ⟨settled_none _, fun _ => .nothing (.inl ?_)⟩
    exact String.isEmpty_iff.mp isEmpty
  · split
    · rename_i isPath
      refine (stopped_resolveFile (.unnamed .specifier)).bind fun found finds => ?_
      exact stopped_settle finds fun _ => .path isPath
    · split
      · rename_i isPlatform
        exact Task.ends_pure ⟨settled_none _, fun _ => .nothing (.inr isPlatform)⟩
      · exact stopped_resolveBare importer

end Resolver
end ModuleAtlas
