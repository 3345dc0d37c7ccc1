import ModuleAtlas.Proofs.Resolve.Governing

/-!
# Ways to resolve, one after the other

A path is tried as it stands.  Any other specifier is looked for through the aliases, if there are
some for the importing file, then in the workspace and then among the installed packages, and the
first way that finds a file decides.  What a way finds does not depend on the others: it is what a
resolver finds that is asked for nothing else.  A specifier whose package has the name of a platform
module is not looked for at all.
-/

namespace ModuleAtlas
namespace Resolver

variable {tree : FileTree} {root importer : Path} {specifier : String}

/-! ## Ways that are asked alone -/

/-- What a way finds for a specifier of a file, when a resolver that knows nothing yet is asked for
this way alone. -/
def answer (tree : FileTree) (root : Path) (specifier : String) (importer : Path) :
    Strategy → Except Failure (Option Path)
  | .path => (resolvePath (importer.parent.child specifier)).outcomeFrom tree (fresh root)
  | .alias => ((resolveAlias specifier importer).outcomeFrom tree (fresh root)).map (·.2)
  | .workspace => (resolveWorkspace specifier).outcomeFrom tree (fresh root)
  | .installed => (resolveInstalled specifier importer.parent).outcomeFrom tree (fresh root)

/-- What the first of some ways that finds a file finds.  A way is asked only when all ways before
it found nothing. -/
def firstFound (tree : FileTree) (root : Path) (specifier : String) (importer : Path) :
    List Strategy → Except Failure (Option Path)
  | [] => .ok none
  | way :: rest =>
    match answer tree root specifier importer way with
    | .ok none => firstFound tree root specifier importer rest
    | other => other

variable {way : Strategy} {rest : List Strategy}

theorem firstFound_of_vain (vain : answer tree root specifier importer way = .ok none) :
    firstFound tree root specifier importer (way :: rest) =
      firstFound tree root specifier importer rest := by
  rw [firstFound, vain]

theorem firstFound_of_found {path : Path}
    (found : answer tree root specifier importer way = .ok (some path)) :
    firstFound tree root specifier importer (way :: rest) = .ok (some path) := by
  rw [firstFound, found]

theorem firstFound_of_failure {failure : Failure}
    (failed : answer tree root specifier importer way = .error failure) :
    firstFound tree root specifier importer (way :: rest) = .error failure := by
  rw [firstFound, failed]

/-- Ways are tried in order until one of them finds a file. -/
inductive Tries (tree : FileTree) (root : Path) (specifier : String) (importer : Path) :
    List Strategy → Option Path → List Strategy → Prop where
  | nothing : Tries tree root specifier importer [] none []
  | found {way : Strategy} {rest : List Strategy} {path : Path}
      (finds : answer tree root specifier importer way = .ok (some path)) :
      Tries tree root specifier importer (way :: rest) (some path) [way]
  | further {way : Strategy} {rest attempted : List Strategy} {found : Option Path}
      (vain : answer tree root specifier importer way = .ok none)
      (tries : Tries tree root specifier importer rest found attempted) :
      Tries tree root specifier importer (way :: rest) found (way :: attempted)

section Tries

variable {ways attempted : List Strategy} {found : Option Path} {path : Path}

/-- A way that is tried last. -/
theorem Tries.single {way : Strategy}
    (answered : answer tree root specifier importer way = .ok found) :
    Tries tree root specifier importer [way] found [way] := by
  cases found with
  | some path => exact .found answered
  | none => exact .further answered .nothing

variable (tries : Tries tree root specifier importer ways found attempted)

include tries

theorem Tries.firstFound_eq :
    firstFound tree root specifier importer ways = .ok found := by
  induction tries with
  | nothing => rfl
  | found finds => exact firstFound_of_found finds
  | further vain _ ih => rw [firstFound_of_vain vain, ih]

theorem Tries.isPrefix :
    attempted <+: ways := by
  induction tries with
  | nothing => exact List.prefix_rfl
  | found => simp
  | further _ _ ih => simpa using ih

/-- When nothing is found all ways were tried in vain. -/
theorem Tries.exhausted (nothing : found = none) :
    attempted = ways ∧ ∀ way ∈ ways, answer tree root specifier importer way = .ok none := by
  induction tries with
  | nothing => simp
  | found => cases nothing
  | further vain _ ih =>
    obtain ⟨rfl, others⟩ := ih nothing
    exact ⟨rfl, List.forall_mem_cons.mpr ⟨vain, others⟩⟩

/-- What is found is found by the way that was tried last, and all others were tried in vain. -/
theorem Tries.exists_last (same : found = some path) :
    ∃ earlier way, attempted = earlier ++ [way] ∧
      answer tree root specifier importer way = .ok (some path) ∧
      ∀ other ∈ earlier, answer tree root specifier importer other = .ok none := by
  induction tries with
  | nothing => cases same
  | @found way rest _ finds =>
    cases same
    exact ⟨[], way, rfl, finds, by simp⟩
  | @further way rest attempted _ vain _ ih =>
    obtain ⟨earlier, last, rfl, finds, others⟩ := ih same
    exact ⟨way :: earlier, last, rfl, finds, List.forall_mem_cons.mpr ⟨vain, others⟩⟩

end Tries

/-! ## Ways that are tried in a resolution -/

/-- What comes of trying some ways: the canonical path of what is found, and the ways that were
tried. -/
structure ComesFrom (tree : FileTree) (root : Path) (specifier : String) (importer : Path)
    (ways : List Strategy) (found : Option Path) (resolution : Resolution) : Prop where
  tries : Tries tree root specifier importer ways found resolution.attempted
  finds : Finds tree found
  file : resolution.file = found.bind tree.resolve?

/-- What was found is made canonical without fail. -/
theorem ends_settle {found : Option Path} {attempted : List Strategy}
    {kind : Resolution → Prop} {cause : Failure → Prop} (finds : Finds tree found)
    (ofKind : kind ⟨found.bind tree.resolve?, attempted⟩) :
    Task.Ends tree (Coherent tree root) kind cause (settle found attempted) := by
  cases found with
  | none => exact Task.ends_pure ofKind
  | some path =>
    obtain ⟨⟨names, entry⟩, looked⟩ := lookup_of_isFileAt (finds path rfl)
    have known := (FileTree.resolve?_of_lookup looked).1
    have settles : Task.Settles tree (Coherent tree root) (settle (some path) attempted)
        (.ok ⟨tree.resolve? path, attempted⟩) := by
      rw [known]
      exact (Task.settles_resolvePath (FileTree.follow_of_lookup looked).1 known).bind
        (Task.settles_pure _)
    intro journal held
    obtain ⟨after, ran, kept⟩ := settles journal held
    exact ⟨_, after, ran, .ok ofKind, kept⟩

/-- What a way finds leads to a file, and it is what the way finds when it is asked alone. -/
abbrev Asks (tree : FileTree) (root : Path) (specifier : String) (importer : Path) (way : Strategy)
    (task : Task Resolver (Option Path)) : Prop :=
  Task.Ends tree (Coherent tree root)
    (fun found => Finds tree found ∧ answer tree root specifier importer way = .ok found)
    (fun failure => answer tree root specifier importer way = .error failure) task

theorem asks_path :
    Asks tree root specifier importer .path (resolvePath (importer.parent.child specifier)) :=
  (steady_resolvePath _).alone.ends_outcomeFrom coherent_fresh

theorem asks_workspace :
    Asks tree root specifier importer .workspace (resolveWorkspace specifier) :=
  (steady_resolveWorkspace _).alone.ends_outcomeFrom coherent_fresh

theorem asks_installed :
    Asks tree root specifier importer .installed (resolveInstalled specifier importer.parent) :=
  (steady_resolveInstalled _ _).alone.ends_outcomeFrom coherent_fresh

/-- One way only. -/
theorem ends_single {task : Task Resolver (Option Path)}
    (asks : Asks tree root specifier importer way task) :
    Yields tree root (fun resolution => ∃ found, ComesFrom tree root specifier importer [way] found
      resolution) (do settle (← task) [way]) := by
  refine (asks.imp (fun _ => id) fun _ _ => trivial).bind ?_
  rintro found ⟨finds, answered⟩
  exact ends_settle finds ⟨found, .single answered, finds, rfl⟩

/-- Packages of the workspace are looked for before installed ones, after other ways were tried. -/
theorem ends_packages (attempted : List Strategy) :
    Task.Ends tree (Coherent tree root)
      (fun resolution => ∃ found tried,
        Tries tree root specifier importer [.workspace, .installed] found tried ∧
          Finds tree found ∧ resolution = ⟨found.bind tree.resolve?, attempted ++ tried⟩)
      (fun failure =>
        firstFound tree root specifier importer [.workspace, .installed] = .error failure) (do
      let found ← resolveWorkspace specifier
      let attempted := attempted ++ [.workspace]
      if found.isSome then settle found attempted
      else settle (← resolveInstalled specifier importer.parent) (attempted ++ [.installed])) := by
  refine (asks_workspace.imp (fun _ => id) fun _ => firstFound_of_failure).bind ?_
  rintro found ⟨finds, answered⟩
  cases found with
  | some path => exact ends_settle finds ⟨some path, [.workspace], .found answered, finds, rfl⟩
  | none =>
    refine (asks_installed.imp (fun _ => id) fun failure failed => ?_).bind ?_
    · rw [firstFound_of_vain answered]
      exact firstFound_of_failure failed
    · rintro found ⟨finds, reached⟩
      have tries := Tries.further answered (.single reached)
      refine ends_settle finds ⟨found, _, tries, finds, ?_⟩
      rw [List.append_assoc]
      rfl

/-! ## Aliases -/

theorem yields_of_steady {α : Type} {kind : α → Prop} {task : Task Resolver α}
    (steady : Task.Steady tree (Coherent tree root) kind task) :
    Yields tree root kind task :=
  (steady.ends_outcomeFrom coherent_fresh).imp (fun _ found => found.1) fun _ _ => trivial

/-- Where aliases are in effect they count as tried, whatever they lead to. -/
theorem yields_aliasBase (base found : Option Path) (specifier : String) :
    Yields tree root (fun outcome => outcome.1 = true) (do
      match found, base with
      | some file, _ => return (true, some file)
      | none, some base => return (true, ← resolvePath (base.child specifier))
      | none, none => return (true, none)) := by
  split
  · exact Task.ends_pure rfl
  · exact (yields_of_steady (steady_resolvePath _).alone).map fun _ _ => rfl
  · exact Task.ends_pure rfl

theorem yields_resolveAlias (specifier : String) (importer : Path) :
    Yields tree root
      (fun outcome => (outcome.1 = true ↔ Governed tree root importer) ∧
        (outcome.1 = false → outcome.2 = none))
      (resolveAlias specifier importer) := by
  refine (yields_aliasesIn importer).bind fun aliases governed => ?_
  cases aliases with
  | none => exact Task.ends_pure ⟨governed, fun _ => rfl⟩
  | some aliases =>
    have inEffect : ∀ outcome : Bool × Option Path, outcome.1 = true →
        (outcome.1 = true ↔ Governed tree root importer) ∧
          (outcome.1 = false → outcome.2 = none) := by
      intro outcome applied
      simp [applied, ← governed]
    dsimp only
    cases aliases.match? specifier with
    | none =>
      exact ((yields_aliasBase aliases.base none specifier).imp inEffect fun _ => id).pure_bind
    | some best =>
      refine (yields_of_steady (steady_resolveTargets aliases _ _).alone).bind fun found _ => ?_
      exact (yields_aliasBase aliases.base found specifier).imp inEffect fun _ => id

theorem asks_alias :
    Task.Ends tree (Coherent tree root)
      (fun outcome => Finds tree outcome.2 ∧
        answer tree root specifier importer .alias = .ok outcome.2 ∧
        (outcome.1 = true ↔ Governed tree root importer) ∧ (outcome.1 = false → outcome.2 = none))
      (fun failure => answer tree root specifier importer .alias = .error failure)
      (resolveAlias specifier importer) := by
  refine ((steady_resolveAlias specifier importer).alone.ends_outcomeFrom coherent_fresh).imp ?_ ?_
  · rintro outcome ⟨finds, answered⟩
    refine ⟨finds, ?_, (yields_resolveAlias specifier importer).kind_of_answer coherent_fresh
      answered⟩
    simp only [answer, answered]
    rfl
  · intro failure failed
    simp only [answer, failed]
    rfl

/-! ## Specifiers -/

/-- A specifier that is neither a path nor named after a module of the platform. -/
structure IsBare (specifier : String) : Prop where
  nonempty : specifier ≠ ""
  noPath : Resolve.isPathSpecifier specifier = false
  noPlatform : Resolve.isPlatformModule specifier = false

/-- The ways that there are for a specifier of a file, in the order in which they are tried. -/
inductive Ways (tree : FileTree) (root : Path) (specifier : String) (importer : Path) :
    List Strategy → Prop where
  | nothing (none : specifier = "" ∨
        Resolve.isPathSpecifier specifier = false ∧ Resolve.isPlatformModule specifier = true) :
      Ways tree root specifier importer []
  | path (isPath : Resolve.isPathSpecifier specifier = true) :
      Ways tree root specifier importer [.path]
  | governed (bare : IsBare specifier) (governed : Governed tree root importer) :
      Ways tree root specifier importer [.alias, .workspace, .installed]
  | plain (bare : IsBare specifier) (ungoverned : ¬Governed tree root importer) :
      Ways tree root specifier importer [.workspace, .installed]

/-- The canonical path of what the first way that finds a file finds. -/
def orderedChoice (tree : FileTree) (root : Path) (specifier : String) (importer : Path) :
    Except Failure (Option Path) :=
  (firstFound tree root specifier importer [.alias, .workspace, .installed]).map
    (·.bind tree.resolve?)

/-- A bare specifier is resolved by the ways that there are for it, and to the ordered choice of all
three: where no aliases are in effect, they find nothing. -/
theorem ends_resolveBare (bare : IsBare specifier) :
    Task.Ends tree (Coherent tree root)
      (fun resolution => ∃ ways found, Ways tree root specifier importer ways ∧
        ComesFrom tree root specifier importer ways found resolution ∧
        firstFound tree root specifier importer [.alias, .workspace, .installed] = .ok found)
      (fun failure =>
        firstFound tree root specifier importer [.alias, .workspace, .installed] = .error failure)
      (resolveBare specifier importer) := by
  refine (asks_alias.imp (fun _ => id) fun _ => firstFound_of_failure).bind ?_
  rintro ⟨applied, found⟩ ⟨finds, answered, governed, unapplied⟩
  dsimp only at finds answered governed unapplied ⊢
  cases applied with
  | false =>
    rw [unapplied rfl] at answered ⊢
    have plain : Ways tree root specifier importer [.workspace, .installed] := by
      refine .plain bare fun inEffect => ?_
      cases governed.mpr inEffect
    rw [firstFound_of_vain answered]
    refine (ends_packages []).imp ?_ fun _ => id
    rintro _ ⟨found, tried, tries, finds, rfl⟩
    exact ⟨_, found, plain, ⟨tries, finds, rfl⟩, tries.firstFound_eq⟩
  | true =>
    have inEffect := Ways.governed bare (governed.mp rfl)
    cases found with
    | some path =>
      have tries : Tries tree root specifier importer [.alias, .workspace, .installed]
          (some path) [.alias] :=
        .found answered
      exact ends_settle finds ⟨_, some path, inEffect, ⟨tries, finds, rfl⟩, tries.firstFound_eq⟩
    | none =>
      rw [firstFound_of_vain answered]
      refine (ends_packages [.alias]).imp ?_ fun _ => id
      rintro _ ⟨found, tried, tries, finds, rfl⟩
      exact ⟨_, found, inEffect, ⟨.further answered tries, finds, rfl⟩, tries.firstFound_eq⟩

/-- A resolution goes through the ways that its specifier has, and comes from what the first of them
to answer has found. -/
theorem yields_resolve (specifier : String) (importer : Path) :
    Yields tree root
      (fun resolution => ∃ ways found, Ways tree root specifier importer ways ∧
        ComesFrom tree root specifier importer ways found resolution)
      (resolve specifier importer) := by
  unfold resolve
  split
  · rename_i isEmpty
    have none : Ways tree root specifier importer [] :=
      .nothing (.inl (String.isEmpty_iff.mp isEmpty))
    exact Task.ends_pure ⟨_, _, none, .nothing, finds_none, rfl⟩
  · rename_i some
    split
    · rename_i isPath
      refine (ends_single asks_path).imp ?_ fun _ => id
      rintro resolution ⟨found, comes⟩
      exact ⟨_, found, .path isPath, comes⟩
    · rename_i noPath
      split
      · rename_i isPlatform
        have unlooked : Ways tree root specifier importer [] :=
          .nothing (.inr ⟨Bool.eq_false_iff.mpr noPath, isPlatform⟩)
        exact Task.ends_pure ⟨_, _, unlooked, .nothing, finds_none, rfl⟩
      · rename_i noPlatform
        have bare : IsBare specifier :=
          ⟨fun same => some (String.isEmpty_iff.mpr same), Bool.eq_false_iff.mpr noPath,
            Bool.eq_false_iff.mpr noPlatform⟩
        refine (ends_resolveBare bare).imp ?_ fun _ _ => trivial
        rintro resolution ⟨ways, found, areWays, comes, -⟩
        exact ⟨ways, found, areWays, comes⟩

/-! ## Attempts -/

/-- A resolution tells the truth about some ways: it names the canonical path of a file, the ways
were tried in order up to the one that found the file, and all of them when none did. -/
structure Truthful (tree : FileTree) (root : Path) (specifier : String) (importer : Path)
    (ways : List Strategy) (resolution : Resolution) : Prop where
  canonical : ∀ path, resolution.file = some path → tree.IsCanonicalFile path
  segment : resolution.attempted <+: ways
  exhausted : resolution.file = none → resolution.attempted = ways ∧
    ∀ way ∈ ways, answer tree root specifier importer way = .ok none
  ending : ∀ path, resolution.file = some path → ∃ earlier way found,
    resolution.attempted = earlier ++ [way] ∧
      answer tree root specifier importer way = .ok (some found) ∧
      tree.resolve? found = some path ∧
      ∀ other ∈ earlier, answer tree root specifier importer other = .ok none

theorem ComesFrom.truthful {ways : List Strategy} {found : Option Path} {resolution : Resolution}
    (comes : ComesFrom tree root specifier importer ways found resolution) :
    Truthful tree root specifier importer ways resolution := by
  obtain ⟨tries, finds, file⟩ := comes
  have origin : ∀ path, resolution.file = some path →
      ∃ written, found = some written ∧ tree.resolve? written = some path := by
    intro path same
    rw [file] at same
    exact Option.bind_eq_some_iff.mp same
  refine ⟨?_, tries.isPrefix, ?_, ?_⟩
  · intro path same
    obtain ⟨written, rfl, known⟩ := origin path same
    exact FileTree.isCanonicalFile_of_passes (finds written rfl) known
  · intro nothing
    apply tries.exhausted
    cases found with
    | none => rfl
    | some written =>
      obtain ⟨⟨names, entry⟩, looked⟩ := lookup_of_isFileAt (finds written rfl)
      rw [file, Option.bind_some, (FileTree.resolve?_of_lookup looked).1] at nothing
      cases nothing
  · intro path same
    obtain ⟨written, rfl, known⟩ := origin path same
    obtain ⟨earlier, way, attempted, answered, vain⟩ := tries.exists_last rfl
    exact ⟨earlier, way, written, attempted, answered, known, vain⟩

/-- Whatever was asked of a resolver before, when it answers for a specifier of a file it names the
canonical path of a file, if any, and it tells the ways that it tried: the first ones of those that
there are for the specifier, up to the way that found the file, or all of them. -/
theorem attempts_are_truthful {resolution : Resolution} (requests : List Request)
    (answered : (do serve requests; resolve specifier importer).outcomeFrom tree (fresh root) =
      .ok resolution) :
    ∃ ways, Ways tree root specifier importer ways ∧
      Truthful tree root specifier importer ways resolution := by
  rw [resolve_after_requests] at answered
  obtain ⟨ways, found, areWays, comes⟩ :=
    (yields_resolve specifier importer).kind_of_answer coherent_fresh answered
  exact ⟨ways, areWays, comes.truthful⟩

/-- A project whose bare specifiers start from its sources. -/
def themed : FileTree :=
  ⟨.directory [
    ("tsconfig.json",
      .file "\x7b\"compilerOptions\": \x7b\"baseUrl\": \"src\"\x7d\x7d".toUTF8 none),
    ("src", .directory [("main.ts", .file .empty none),
      ("constants", .directory [("colors.ts", .file .empty none)]),
      ("theme", .directory [("colors.ts", .file .empty none)])])], []⟩

theorem theme_found_truthfully :
    (do serve [.resolution "theme" (.ofRoot ["src", "main.ts"])]
        resolve "theme/colors" (.ofRoot ["src", "main.ts"])).outcomeFrom themed
          (fresh (.ofRoot [])) = .ok ⟨some (.ofRoot ["src", "theme", "colors.ts"]), [.alias]⟩ ∧
      ∃ ways, Ways themed (.ofRoot []) "theme/colors" (.ofRoot ["src", "main.ts"]) ways ∧
        Truthful themed (.ofRoot []) "theme/colors" (.ofRoot ["src", "main.ts"]) ways
          ⟨some (.ofRoot ["src", "theme", "colors.ts"]), [.alias]⟩ := by
  have answered : (do serve [.resolution "theme" (.ofRoot ["src", "main.ts"])]
                      resolve "theme/colors" (.ofRoot ["src", "main.ts"])).outcomeFrom themed
      (fresh (.ofRoot [])) = .ok ⟨some (.ofRoot ["src", "theme", "colors.ts"]), [.alias]⟩ := by
    decide +kernel
  exact ⟨answered, attempts_are_truthful _ answered⟩

/-! ## Ordered choice -/

/-- A bare specifier is resolved to the ordered choice of the three ways. -/
theorem outcomeFrom_resolveBare (bare : IsBare specifier) :
    ((resolveBare specifier importer).outcomeFrom tree (fresh root)).map (·.file) =
      orderedChoice tree root specifier importer := by
  have ends := (@ends_resolveBare tree root importer specifier bare).outcomeFrom coherent_fresh
  unfold orderedChoice
  generalize (resolveBare specifier importer).outcomeFrom tree (fresh root) = outcome at ends ⊢
  cases ends with
  | @ok resolution comesOf =>
    obtain ⟨ways, found, -, comes, first⟩ := comesOf
    rw [first, Except.map, comes.file]
    rfl
  | error failed =>
    rw [failed]
    rfl

/-- Unless a specifier is a path, it is resolved to the ordered choice of the three ways exactly
when it is not named after a module of the platform or none of the ways finds anything.  One that is
named after a module of the platform is never looked for. -/
theorem resolve_by_ordered_choice (nonempty : specifier ≠ "")
    (noPath : Resolve.isPathSpecifier specifier = false) :
    ∃ outcome, Task.Settles tree (Coherent tree root) (resolve specifier importer) outcome ∧
      (outcome.map (·.file) = orderedChoice tree root specifier importer ↔
        Resolve.isPlatformModule specifier = false ∨
          orderedChoice tree root specifier importer = .ok none) ∧
      (Resolve.isPlatformModule specifier = true → outcome = .ok ⟨none, []⟩) := by
  have some : ¬specifier.isEmpty = true := fun none => nonempty (String.isEmpty_iff.mp none)
  refine ⟨_, (steady_resolve specifier importer).alone.settles_outcomeFrom coherent_fresh, ?_⟩
  unfold resolve
  rw [if_neg some, if_neg (by simp [noPath])]
  cases platform : Resolve.isPlatformModule specifier with
  | true =>
    have unlooked : (pure ⟨none, []⟩ : Task Resolver Resolution).outcomeFrom tree (fresh root) =
        .ok ⟨none, []⟩ := rfl
    rw [if_pos rfl, unlooked]
    refine ⟨?_, fun _ => rfl⟩
    simp [Except.map, eq_comm]
  | false =>
    rw [if_neg (by simp), outcomeFrom_resolveBare ⟨nonempty, noPath, platform⟩]
    simp

theorem theme_by_ordered_choice :
    ("theme/colors" ≠ "" ∧ Resolve.isPathSpecifier "theme/colors" = false) ∧
      ∃ outcome, Task.Settles themed (Coherent themed (.ofRoot []))
          (resolve "theme/colors" (.ofRoot ["src", "main.ts"])) outcome ∧
        (outcome.map (·.file) =
            orderedChoice themed (.ofRoot []) "theme/colors" (.ofRoot ["src", "main.ts"]) ↔
          Resolve.isPlatformModule "theme/colors" = false ∨
            orderedChoice themed (.ofRoot []) "theme/colors" (.ofRoot ["src", "main.ts"]) =
              .ok none) ∧
        (Resolve.isPlatformModule "theme/colors" = true → outcome = .ok ⟨none, []⟩) :=
  ⟨⟨by decide, by decide⟩, resolve_by_ordered_choice (by decide) (by decide)⟩

/-- A directory of the project that is named after a module of the platform is not looked into. -/
theorem constants_not_looked_for :
    Resolve.isPathSpecifier "constants/colors" = false ∧
      Text.startsWith "node:" "constants/colors" = false ∧
      "constants/colors" ∉ Resolve.platformModules ∧
      (resolve "constants/colors" (.ofRoot ["src", "main.ts"])).outcomeFrom themed
        (fresh (.ofRoot [])) = .ok ⟨none, []⟩ ∧
      orderedChoice themed (.ofRoot []) "constants/colors" (.ofRoot ["src", "main.ts"]) =
        .ok (some (.ofRoot ["src", "constants", "colors.ts"])) := by
  decide +kernel

end Resolver
end ModuleAtlas
