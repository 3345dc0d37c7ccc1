import ModuleAtlas.Catalogue
import ModuleAtlas.Proofs.Source.ExportedNames
import ModuleAtlas.Proofs.Types.ExportListing

/-!
# The names in the catalogue

The language says which names a module exports.  The catalogue lists no other ones, and it misses
some: those that a declaration binds in a pattern, those that a clause exports for a local name that
it cannot follow, such as that of a whole module, and whole modules that another module hands on.
-/

namespace ModuleAtlas

open ModuleAtlas.Types SourceModule

/-! ## Exported names -/

namespace SourceModule

variable {source : SourceModule}

/-- A statement of a module with a source hands on from another module. -/
def HandsOn (source : SourceModule) (entry : ReExport) : Prop :=
  ∃ statement ∈ source.root.namedChildren, entry ∈ (Contribution.ofStatement statement).reExports

/-- A statement of a module exports another module as a whole under a name. -/
def HandsOnWhole (source : SourceModule) (name : String) : Prop :=
  ∃ entry, source.HandsOn entry ∧ entry.nameSpace = some name

/-- A module declares a local name, or an import binds it. -/
def Knows (source : SourceModule) (name : String) : Prop :=
  source.Declares Node.patternNames name ∨
    ∃ statement ∈ source.root.namedChildren,
      name ∈ (Contribution.ofStatement statement).bindings.map Binding.name

/-- The names that a module exports in the language. -/
inductive Exported (tree : FileTree) (root : Path) : SourceModule → String → Prop where
  /-- A statement exports what it declares, identifiers in patterns included, or a value. -/
  | own {source : SourceModule} {statement : Node} {name : String}
      (member : statement ∈ source.root.namedChildren)
      (exported : name ∈ statement.exportedNames Node.patternNames) :
      Exported tree root source name
  /-- A clause exports a local name that is declared or imported. -/
  | clause {source : SourceModule} {name localName : String}
      (clause : source.ExportsLocal name localName)
      (known : source.Knows localName) :
      Exported tree root source name
  /-- An identifier is the default export. -/
  | value {source : SourceModule} {statement : Node} {localName : String}
      (member : statement ∈ source.root.namedChildren)
      (isDefault : statement.hasChild "default" = true)
      (pending : ("default", localName) ∈ (Contribution.ofStatement statement).pending) :
      Exported tree root source "default"
  /-- A statement exports another module as a whole. -/
  | whole {source : SourceModule} {name : String}
      (whole : source.HandsOnWhole name) :
      Exported tree root source name
  /-- A statement hands on a name that another module exports. -/
  | handed {source target : SourceModule} {entry : ReExport} {name imported : String}
      (hands : source.HandsOn entry)
      (handed : ReExport.sourceName? entry name = some imported)
      (leads : source.Leads tree root entry target)
      (exported : Exported tree root target imported) :
      Exported tree root source name

/-- How an exported name gets lost. -/
inductive Lost (tree : FileTree) (root : Path) : SourceModule → String → Prop where
  /-- A declaration binds the name in a pattern. -/
  | pattern {source : SourceModule} {statement : Node} {name : String}
      (member : statement ∈ source.root.namedChildren)
      (exported : name ∈ statement.exportedNames Node.patternNames)
      (inPattern : name ∉ statement.exportedNames Node.plainNames) :
      Lost tree root source name
  /-- The local name of a clause is not declared, unless in a pattern, and what an import binds to
  it, if one does, is no single name that the other module provides. -/
  | unfollowed {source : SourceModule} {name localName : String}
      (clause : source.ExportsLocal name localName)
      (undeclared : ¬source.Declares Node.plainNames localName)
      (unbound : ∀ binding target, source.binding? localName = some binding →
        source.Leads tree root (handedOf binding name) target →
        ¬Provides tree root target binding.imported) :
      Lost tree root source name
  /-- The name stands for a whole module, and it is handed on from another module. -/
  | whole {source target : SourceModule} {entry : ReExport} {name imported : String}
      (hands : source.HandsOn entry)
      (handed : ReExport.sourceName? entry name = some imported)
      (leads : source.Leads tree root entry target)
      (whole : target.HandsOnWhole imported) :
      Lost tree root source name
  /-- The name is handed on from a module in which it gets lost. -/
  | handed {source target : SourceModule} {entry : ReExport} {name imported : String}
      (hands : source.HandsOn entry)
      (handed : ReExport.sourceName? entry name = some imported)
      (leads : source.Leads tree root entry target)
      (lost : Lost tree root target imported) :
      Lost tree root source name

end SourceModule

/-! ## Provided names are exported -/

section Names

variable {tree : FileTree} {root : Path} {source : SourceModule} {name : String}

theorem sourceName?_handedOf {binding : Binding} {asked imported : String}
    (handed : ReExport.sourceName? (handedOf binding name) asked = some imported) :
    asked = name ∧ imported = binding.imported := by
  unfold ReExport.sourceName? handedOf at handed
  simp only [List.lookup_cons, List.lookup_nil] at handed
  split at handed
  · rename_i same
    exact ⟨eq_of_beq same, (Option.some.inj handed).symm⟩
  · cases handed

theorem SourceModule.StandsIn.own_iff (stands : source.StandsIn tree) :
    name ∈ source.exports.map Prod.fst ↔
      (∃ statement ∈ source.root.namedChildren, name ∈ statement.exportedNames Node.plainNames) ∨
      ∃ localName, source.ExportsLocal name localName ∧
        source.Declares Node.plainNames localName := by
  obtain ⟨language, parsed, same, _⟩ := stands.eq_ofTree
  rw [same, ofTree_root]
  exact mem_exports_ofTree_iff

theorem SourceModule.StandsIn.reExports_iff {entry : ReExport} (stands : source.StandsIn tree) :
    entry ∈ source.reExports ↔ source.HandsOn entry ∨
      ∃ name localName binding, source.ExportsLocal name localName ∧
        ¬source.Declares Node.plainNames localName ∧
        source.binding? localName = some binding ∧ entry = handedOf binding name := by
  obtain ⟨language, parsed, same, _⟩ := stands.eq_ofTree
  unfold HandsOn
  rw [same]
  rw [ofTree_root]
  exact mem_reExports_ofTree_iff

theorem SourceModule.StandsIn.knows_of_binding? {binding : Binding} (stands : source.StandsIn tree)
    (bound : source.binding? name = some binding) :
    source.Knows name := by
  obtain ⟨language, parsed, same, _⟩ := stands.eq_ofTree
  rw [same] at bound
  obtain ⟨rfl, statement, statementMember, binds⟩ := mem_bindings_of_binding? bound
  rw [same]
  refine .inr ⟨statement, ?_, List.mem_map_of_mem binds⟩
  rwa [ofTree_root]

theorem SourceModule.Declares.knows (declares : source.Declares Node.plainNames name) :
    source.Knows name := by
  obtain ⟨statement, member, declared⟩ := declares
  exact .inl ⟨statement, member, statement.introducedNames_subset Node.plainNames_subset declared⟩

/-- What the search and the list provide, the module exports in the language. -/
theorem exported_of_provides (stands : source.StandsIn tree)
    (provides : Provides tree root source name) :
    Exported tree root source name := by
  induction provides with
  | @own source name member =>
    rcases stands.own_iff.mp member with ⟨statement, statementMember, exported⟩ |
      ⟨_, clause, declares⟩
    · exact .own statementMember
        (statement.exportedNames_subset Node.plainNames_subset exported)
    · exact .clause clause declares.knows
  | @handed source target entry name imported member handed leads _ ih =>
    rcases stands.reExports_iff.mp member with hands | ⟨_, _, _, clause, _, bound, rfl⟩
    · exact .handed hands handed leads (ih leads.standsIn)
    · obtain ⟨rfl, _⟩ := sourceName?_handedOf handed
      exact .clause clause (stands.knows_of_binding? bound)

/-- What a clause exports for a local name is provided, or it gets lost. -/
theorem provides_or_lost_of_clause {localName : String} (stands : source.StandsIn tree)
    (clause : source.ExportsLocal name localName) :
    Provides tree root source name ∨ Lost tree root source name := by
  by_cases declares : source.Declares Node.plainNames localName
  · exact .inl (.own (stands.own_iff.mpr (.inr ⟨localName, clause, declares⟩)))
  by_cases followed : ∃ binding target, source.binding? localName = some binding ∧
      source.Leads tree root (handedOf binding name) target ∧
      Provides tree root target binding.imported
  · obtain ⟨binding, target, bound, leads, provides⟩ := followed
    have member : handedOf binding name ∈ source.reExports :=
      stands.reExports_iff.mpr (.inr ⟨name, localName, binding, clause, declares, bound, rfl⟩)
    exact .inl (.handed member (by simp [ReExport.sourceName?, handedOf]) leads provides)
  · refine .inr (.unfollowed clause declares fun binding target bound leads provides => ?_)
    exact followed ⟨binding, target, bound, leads, provides⟩

/-- What a module exports in the language it provides, or it stands for a whole module, or it gets
lost. -/
theorem provides_or_lost (stands : source.StandsIn tree)
    (exported : Exported tree root source name) :
    Provides tree root source name ∨ source.HandsOnWhole name ∨ Lost tree root source name := by
  induction exported with
  | @own source statement name member exported =>
    by_cases plain : name ∈ statement.exportedNames Node.plainNames
    · exact .inl (.own (stands.own_iff.mpr (.inl ⟨statement, member, plain⟩)))
    · exact .inr (.inr (.pattern member exported plain))
  | clause clause _ => exact (provides_or_lost_of_clause stands clause).imp_right .inr
  | value member _ pending =>
    exact (provides_or_lost_of_clause stands ⟨_, member, pending⟩).imp_right .inr
  | whole whole => exact .inr (.inl whole)
  | handed hands handed leads _ ih =>
    rcases ih leads.standsIn with provides | whole | lost
    · exact .inl (.handed (stands.reExports_iff.mpr (.inl hands)) handed leads provides)
    · exact .inr (.inr (.whole hands handed leads whole))
    · exact .inr (.inr (.handed hands handed leads lost))

end Names

/-! ## The catalogue of a file -/

namespace Catalogue

open Session

variable {tree : FileTree} {root : Path} {source : SourceModule}

theorem returns_entryOf (simplifier : Simplifier) (found : Export) :
    Task.Returns (entryOf simplifier found) fun entry => entry.name = found.name :=
  (Task.returns_any _).bind fun _ _ => Task.returns_pure rfl

/-- The entries for whole modules are named by the statements that hand these on. -/
theorem mem_names_nameSpaceEntries (stands : source.StandsIn tree) (name : String) :
    name ∈ (source.reExports.filterMap nameSpaceEntry?).map ExportEntry.name ↔
      source.HandsOnWhole name := by
  constructor
  · intro member
    obtain ⟨shown, shownMember, rfl⟩ := List.mem_map.mp member
    obtain ⟨entry, entryMember, whole⟩ := List.mem_filterMap.mp shownMember
    obtain ⟨name, hasName, rfl⟩ := Option.map_eq_some_iff.mp whole
    rcases stands.reExports_iff.mp entryMember with hands | ⟨_, _, _, _, _, _, rfl⟩
    · exact ⟨entry, hands, hasName⟩
    · cases hasName
  · rintro ⟨entry, hands, hasName⟩
    have member := stands.reExports_iff.mpr (.inl hands)
    rw [List.map_filterMap]
    refine List.mem_filterMap.mpr ⟨entry, member, ?_⟩
    unfold nameSpaceEntry?
    rw [hasName]
    rfl

/-- The names in the catalogue of a file. -/
def names (found : FileExports) : List String :=
  match found.exports with
  | .ok entries => entries.map ExportEntry.name
  | .error _ => []

theorem untold_of_unreasoned {failure : Failure} (unreasoned : failure.reason? = none) :
    failure.message? = none := by
  cases failure with
  | overflow => cases unreasoned
  | _ => exact unreasoned

/-- Describing an export ends only in a failure that is not told to a user. -/
theorem failsBy_entryOf (simplifier : Simplifier) (found : Export) :
    Task.FailsBy (entryOf simplifier found) fun failure => failure.message? = none := by
  have described : Task.FailsBy (describe simplifier found.declaration found.source)
      fun failure => failure.message? = none := by
    refine (Task.failsBy_attempt _).bind fun outcome => ?_
    cases outcome with
    | ok description => exact Task.failsBy_pure _
    | error failure =>
      dsimp only
      cases unreasoned : failure.reason? with
      | some reason => exact Task.failsBy_pure _
      | none =>
        intro tree journal other after ran
        cases ran
        exact untold_of_unreasoned unreasoned
  exact described.bind fun _ => Task.failsBy_pure _

/-- In the catalogue of a module are the names that it provides and those under which it hands on
whole modules. -/
theorem ofFile_names (simplifier : Simplifier) {journal : Journal Session}
    (stands : source.StandsIn tree) (followable : source.Followable tree root)
    (once : GivesNamesOnce tree root source) (fromTree : FromTree tree root journal.state) :
    (∃ failure after, ofFile simplifier root none source.path tree journal =
        (.error failure, after) ∧ failure.message? = none) ∨
    ∃ found after, ofFile simplifier root none source.path tree journal = (.ok found, after) ∧
      ∀ name, name ∈ names found ↔ Provides tree root source name ∨ source.HandsOnWhole name := by
  obtain ⟨exports, _, lists, _, listed⟩ := settles_moduleExports stands followable once
  have seen : Task.Settles tree (FromTree tree root) (fileAt root source.path)
      (.ok (File.seenFrom root source.path)) :=
    (settles_resolvePath_standsIn stands).bind (Task.settles_pure _)
  have parses : Task.Settles tree (FromTree tree root)
      (parse (File.seenFrom root source.path).path) (.ok (.ok source)) :=
    settles_parse stands
  have all : ∀ {α : Type} (values : List α) (naming : α → String),
      values.filter (fun value => isWanted none (naming value)) = values :=
    fun values naming => List.filter_eq_self.mpr fun _ _ => rfl
  unfold ofFile ofFileOn
  obtain ⟨first, firstHeld, ran⟩ := seen.bind_eq fromTree _
  rw [ran]
  obtain ⟨second, secondHeld, ran⟩ := parses.bind_eq firstHeld _
  rw [ran]
  obtain ⟨third, _, ran⟩ := lists.bind_eq secondHeld _
  simp only [bounded_ample_listing]
  rw [ran, all, all]
  rcases described : exports.mapM (entryOn .ample simplifier) tree third
      with ⟨failure | entries, after⟩
  · refine .inl ⟨failure, after, Task.bind_of_error described, ?_⟩
    exact Task.failsBy_mapM (failsBy_entryOf simplifier) exports tree third failure after described
  · refine .inr ⟨_, after, Task.bind_of_ok described, fun name => ?_⟩
    have same : entries.map ExportEntry.name = _ :=
      Task.returns_mapM (returns_entryOf simplifier) exports tree third entries after described
    unfold names
    dsimp only
    rw [List.map_append, List.mem_append, same]
    exact or_congr (listed name) (mem_names_nameSpaceEntries stands name)

/-- All names in the catalogue of a module are exported by it in the language, and a name that is
exported but not in the catalogue gets lost in one of the ways there are.  The catalogue is missing
only when a description ends in a failure that is not told to a user. -/
theorem names_exported_or_lost (simplifier : Simplifier) (journal : Journal Session)
    (stands : source.StandsIn tree) (followable : source.Followable tree root)
    (once : GivesNamesOnce tree root source) (fromTree : FromTree tree root journal.state) :
    (∃ failure after, ofFile simplifier root none source.path tree journal =
        (.error failure, after) ∧ failure.message? = none) ∨
    ∃ found after, ofFile simplifier root none source.path tree journal = (.ok found, after) ∧
      ∀ name, (name ∈ names found → Exported tree root source name) ∧
        (Exported tree root source name → name ∈ names found ∨ Lost tree root source name) := by
  refine (ofFile_names simplifier stands followable once fromTree).imp_right ?_
  rintro ⟨found, after, ran, shown⟩
  refine ⟨found, after, ran, fun name => ⟨fun member => ?_, fun exported => ?_⟩⟩
  · exact ((shown name).mp member).elim (exported_of_provides stands) .whole
  · rcases provides_or_lost stands exported with provides | whole | lost
    · exact .inl ((shown name).mpr (.inl provides))
    · exact .inl ((shown name).mpr (.inr whole))
    · exact .inr lost

/-! ## A whole module under a local name -/

/-- A statement that imports another module as a whole under a name. -/
def wholeImport (name specifier : String) : Node :=
  .mk "import_statement" true none 0 1 "" [
    .mk "import_clause" true none 0 1 "" [
      .mk "namespace_import" true none 0 1 "" [.mk "identifier" true none 0 1 name []]],
    .mk "string" true (some "source") 0 1 ("'" ++ specifier ++ "'") []]

/-- A statement that exports a local name. -/
def localStatement (name : String) : Node :=
  .mk "export_statement" true none 0 1 "" [
    .mk "export_clause" true none 0 1 "" [
      .mk "export_specifier" true none 0 1 "" [.mk "identifier" true (some "name") 0 1 name []]]]

/-- The file that imports the other one as a whole and exports that name. -/
def toolsFile : Node := program [wholeImport "tools" "./b", localStatement "tools"]

/-- The file that declares a type. -/
def wordFile : Node := program [typeStatement "Word"]

/-- A file tree with the two files. -/
def toolsTree : FileTree :=
  ⟨.directory [("a.ts", .file .empty (some toolsFile)), ("b.ts", .file .empty (some wordFile))], []⟩

/-- The modules of the two files. -/
def toolsModule : SourceModule := .ofTree (.ofRoot ["a.ts"]) .plain toolsFile

@[inherit_doc toolsModule]
def wordModule : SourceModule := .ofTree (.ofRoot ["b.ts"]) .plain wordFile

/-- The descriptions with the limits that are set unless others are asked for. -/
def plainSimplifier : Simplifier := .ofSettings .default

theorem standsIn_toolsModule : toolsModule.StandsIn toolsTree :=
  ⟨⟨["a.ts"], _, rfl, rfl, rfl, by decide⟩, rfl⟩

theorem standsIn_wordModule : wordModule.StandsIn toolsTree :=
  ⟨⟨["b.ts"], _, rfl, rfl, rfl, by decide⟩, rfl⟩

/-- The first file leads to the second one, and that one leads nowhere. -/
theorem leadingTable_tools :
    LeadingTable toolsTree [toolsModule, wordModule] where
  leads := by decide +kernel
  stands := by
    rintro source (_ | ⟨_, _ | ⟨_, ⟨⟩⟩⟩)
    exacts [standsIn_toolsModule, standsIn_wordModule]

theorem exported_tools : Exported toolsTree (.ofRoot []) toolsModule "tools" := by
  have children : toolsModule.root.namedChildren =
      [wholeImport "tools" "./b", localStatement "tools"] := rfl
  have clause : toolsModule.ExportsLocal "tools" "tools" :=
    ⟨localStatement "tools", by rw [children]; exact .tail _ (.head _), by decide⟩
  have known : toolsModule.Knows "tools" :=
    .inr ⟨wholeImport "tools" "./b", by rw [children]; exact .head _, by decide⟩
  exact .clause clause known

/-- The catalogue of the first file is empty. -/
theorem names_tools :
    ∃ found after, ofFile plainSimplifier (.ofRoot []) none toolsModule.path toolsTree
        ⟨fresh (.ofRoot []), []⟩ = (.ok found, after) ∧ names found = [] :=
  have answers : ((ofFile plainSimplifier (.ofRoot []) none toolsModule.path).outcomeFrom toolsTree
      (fresh (.ofRoot []))).map names = .ok [] := by
    decide +kernel
  Task.exists_of_outcomeFrom answers

/-- The name of the whole module gets lost. -/
theorem lost_tools : Lost toolsTree (.ofRoot []) toolsModule "tools" := by
  obtain ⟨found, after, ran, none⟩ := names_tools
  have shown := names_exported_or_lost plainSimplifier ⟨fresh (.ofRoot []), []⟩ standsIn_toolsModule
    (leadingTable_tools.followable (.head _))
    (leadingTable_tools.givesNamesOnce (.head _) (by decide +kernel)) fromTree_fresh
  rw [ran] at shown
  rcases shown with ⟨failure, _, failed, _⟩ | ⟨_, _, same, agree⟩
  · cases failed
  · cases same
    refine ((agree "tools").2 exported_tools).resolve_left fun member => ?_
    rw [none] at member
    cases member

/-- A module exports a name that its catalogue does not have. -/
theorem tools_not_in_catalogue :
    Exported toolsTree (.ofRoot []) toolsModule "tools" ∧
    ∃ found after, ofFile plainSimplifier (.ofRoot []) none toolsModule.path toolsTree
        ⟨fresh (.ofRoot []), []⟩ = (.ok found, after) ∧ "tools" ∉ names found := by
  obtain ⟨found, after, ran, none⟩ := names_tools
  refine ⟨exported_tools, found, after, ran, ?_⟩
  rw [none]
  exact List.not_mem_nil

end Catalogue
end ModuleAtlas
