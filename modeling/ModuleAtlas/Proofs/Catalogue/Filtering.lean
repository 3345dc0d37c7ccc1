import ModuleAtlas.Proofs.Catalogue.Entries

/-!
# Wanted names

Asking for some names only gives the catalogue of all exports, restricted to these names: since each
entry is what it is alone, it is the same whether the others are described before it or not.
-/

namespace ModuleAtlas
namespace FileExports

/-- The file with the entries of wanted names only. -/
def restrict (names : List String) (found : FileExports) : FileExports :=
  { found with exports := found.exports.map fun entries =>
      entries.filter fun entry => Catalogue.isWanted (some names) entry.name }

end FileExports

namespace Catalogue

open Session ModuleAtlas.Types

variable {tree : FileTree} {root base path : Path} {simplifier : Simplifier} {input : String}
  {names : List String}

/-! ## Files -/

/-- The entries that stand for other modules as a whole, restricted to wanted names. -/
theorem nameSpaceEntries_wanted (source : SourceModule) :
    nameSpaceEntries (some names) source =
      (nameSpaceEntries none source).filter fun entry => isWanted (some names) entry.name := by
  unfold nameSpaceEntries
  rw [List.filter_filter]
  exact List.filter_congr fun _ _ => (Bool.and_true _).symm

/-- With a list of names, a file shows the exports of these names only. -/
theorem settles_ofFile {found : FileExports}
    (lists : Lists tree root .ample simplifier none path found) :
    Task.Settles tree (Idle tree root) (ofFile simplifier root (some names) path)
      (.ok (found.restrict names)) := by
  cases lists with
  | unreadable seen refused =>
    refine ((independent_fileAt path).settles seen).bind ?_
    refine ((independent_parse _).settles refused).bind ?_
    exact (Task.settles_note _).bind (Task.settles_pure _)
  | listed exporting described =>
    refine ((independent_fileAt path).settles exporting.seen).bind ?_
    refine ((independent_parse _).settles exporting.read).bind ?_
    simp only [bounded_ample_listing]
    refine ((independent_moduleExports _).settles exporting.listed).bind ?_
    have all : ∀ exports : List Export,
        (exports.filter fun found => isWanted none found.name) = exports :=
      fun exports => List.filter_eq_self.mpr fun _ _ => rfl
    rw [all] at described
    have kept := described.filter fun _ _ describes =>
      isWanted_of_describes describes (some names)
    refine (Task.settles_mapM (kept.mono fun _ _ => settles_entryOf)).bind ?_
    have same : ∀ entries source, (entries ++ nameSpaceEntries none source).filter
          (fun entry => isWanted (some names) entry.name) =
        entries.filter (fun entry => isWanted (some names) entry.name) ++
          nameSpaceEntries (some names) source := by
      intro entries source
      rw [List.filter_append, nameSpaceEntries_wanted]
    unfold FileExports.restrict
    simp only [Except.map, same]
    exact Task.settles_pure _

/-! ## Inputs -/

/-- What is shown for an input, restricted to wanted names. -/
def restrictShown (names : List String) (shown : Option FileExports) : Option FileExports :=
  (shown.map (FileExports.restrict names)).filter fun found => !found.isEmpty

theorem restrictShown_some (found : FileExports) :
    restrictShown names (some found) =
      if (found.restrict names).isEmpty then none else some (found.restrict names) := by
  cases isEmpty : (found.restrict names).isEmpty <;> simp [restrictShown, isEmpty]

/-- With a list of names, an input shows the exports of these names only. -/
theorem settles_ofInput {shown : Option FileExports}
    (shows : Shows tree root .ample simplifier none base input shown) :
    Task.Settles tree (Idle tree root) (ofInput simplifier root base (some names) input)
      (.ok (restrictShown names shown)) := by
  cases shows with
  | nowhere leads =>
    refine ((independent_resolveInput input base).settles leads).bind ?_
    exact (Task.settles_note _).bind (Task.settles_pure _)
  | @file path found leads lists =>
    refine ((independent_resolveInput input base).settles leads).bind ?_
    refine (settles_ofFile lists).bind ?_
    change Task.Settles tree _ _ (.ok (restrictShown names (some found)))
    rw [restrictShown_some]
    exact Task.settles_pure _

theorem filterMap_restrictShown (shown : List (Option FileExports)) :
    (shown.map (restrictShown names)).filterMap id =
      ((shown.filterMap id).map (FileExports.restrict names)).filter
        fun found => !found.isEmpty := by
  induction shown with
  | nil => rfl
  | cons first rest ih =>
    cases first with
    | none => exact ih
    | some found =>
      rw [List.map_cons, restrictShown_some]
      cases isEmpty : (found.restrict names).isEmpty with
      | true => simpa [isEmpty] using ih
      | false => simpa [isEmpty] using ih

/-- When all exports of some inputs have a catalogue, the wanted ones have the same catalogue
restricted to their names, without the files that are left with nothing to show.  This holds from
whatever has been read before the one and before the other. -/
theorem extract_wanted_eq_restrict
    {directory : Path} {inputs : List String} {journal after : Journal Session}
    {found : List FileExports} (wants : names ≠ []) (idle : Idle tree root journal.state)
    (ran : extract simplifier root inputs directory [] tree journal = (.ok found, after)) :
    Task.Settles tree (Idle tree root) (extract simplifier root inputs directory names)
      (.ok ((found.map (FileExports.restrict names)).filter fun found => !found.isEmpty)) := by
  have ends : Task.Ends tree (Idle tree root) _ _ (extract simplifier root inputs directory []) :=
    ends_extractOn spares_ample simplifier inputs directory []
  obtain ⟨outcome, _, same, ofOne, _⟩ := ends journal idle
  rw [ran] at same
  cases same
  obtain ⟨base, shown, resolved, shows, rfl⟩ := ofOne
  have wanted : (if names.isEmpty then none else some names) = some names :=
    if_neg (by simpa using wants)
  unfold extract extractOn
  rw [wanted, ← filterMap_restrictShown]
  refine ((independent_resolvePath directory).settles resolved).bind ?_
  refine (Task.settles_mapM ?_).bind (Task.settles_pure _)
  exact shows.map_right fun input shown shows => settles_ofInput shows

/-- A file tree with two files, the first of which exports two types. -/
def pairTree : FileTree :=
  ⟨.directory [
    ("a.ts", .file .empty (some (program [
      aliasStatement "Plain" (.mk "predefined_type" true (some "value") 0 1 "string" []),
      aliasStatement "Escaped" (.mk "literal_type" true (some "value") 0 1 "'\\1'" [])]))),
    ("b.ts", .file .empty (some wordFile))], []⟩

/-- Of two files with three types one file with one type is left. -/
theorem plain_wanted_alone :
    ∃ found after, ["Plain"] ≠ [] ∧ Idle pairTree (.ofRoot []) (fresh (.ofRoot [])) ∧
      extract plainSimplifier (.ofRoot []) ["a.ts", "b.ts"] (.ofRoot []) [] pairTree
        ⟨fresh (.ofRoot []), []⟩ = (.ok found, after) ∧
      found.map Catalogue.names = [["Plain", "Escaped"], ["Word"]] ∧
      Task.Settles pairTree (Idle pairTree (.ofRoot []))
        (extract plainSimplifier (.ofRoot []) ["a.ts", "b.ts"] (.ofRoot []) ["Plain"])
        (.ok
          ((found.map (FileExports.restrict ["Plain"])).filter fun found => !found.isEmpty)) := by
  have answers :
      ((extract plainSimplifier (.ofRoot []) ["a.ts", "b.ts"] (.ofRoot []) []).outcomeFrom
        pairTree (fresh (.ofRoot []))).map (List.map Catalogue.names) =
        .ok [["Plain", "Escaped"], ["Word"]] := by
    decide +kernel
  obtain ⟨found, after, ran, shown⟩ := Task.exists_of_outcomeFrom answers
  have wants : ["Plain"] ≠ [] := List.cons_ne_nil _ _
  exact ⟨found, after, wants, idle_fresh, ran, shown,
    extract_wanted_eq_restrict wants idle_fresh ran⟩

end Catalogue
end ModuleAtlas
