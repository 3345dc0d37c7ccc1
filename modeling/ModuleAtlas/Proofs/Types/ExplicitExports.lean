import ModuleAtlas.Proofs.Types.ExportListing

/-!
# Explicit exports and `export *`

A module exports a name explicitly when it exports it itself or a clause of it hands the name on.
What it exports itself comes before everything else.  Among its re-exports the first one decides a
search that leads to declarations, whether it hands on the name or all names, and a list has the
declarations behind all of them.  So an explicit export wins over `export *` where the module
exports the name itself, or where no `export *` that leads to declarations stands before it.
-/

namespace ModuleAtlas
namespace Types

open Session

variable {tree : FileTree} {root : Path} {source : SourceModule} {name : String}

/-! ## Explicit exports -/

/-- An export that an `export *` of a module hands on. -/
def Starred (tree : FileTree) (root : Path) (source : SourceModule) (item : Export) : Prop :=
  ∃ entry ∈ source.reExports, ByStar tree root source entry item

theorem HasExport.explicit_or_starred {item : Export} (exported : HasExport tree root source item) :
    Explicit tree root source item ∨
      item.name ∉ source.exports.map Prod.fst ∧ Starred tree root source item := by
  cases exported with
  | own member => exact .inl (.inl ⟨rfl, member⟩)
  | clause member handed => exact .inl (.inr ⟨_, member, handed⟩)
  | star member star leads notDefault notOwn exported =>
    exact .inr ⟨notOwn, _, member, star, notDefault, notOwn, _, leads, exported⟩

/-- A module exports a name itself, or a clause is the first of its re-exports that leads to
declarations behind the name. -/
def ExplicitFirst (tree : FileTree) (root : Path) (source : SourceModule) (name : String) : Prop :=
  name ∈ source.exports.map Prod.fst ∨
    ∃ entry found, entry.names.isSome ∧
      First tree root [(source.path, name)] source name source.reExports entry found

/-- A module does not export a name itself, and an `export *` is the first of its re-exports that
leads to declarations behind the name. -/
def StarFirst (tree : FileTree) (root : Path) (source : SourceModule) (name : String) : Prop :=
  name ∉ source.exports.map Prod.fst ∧
    ∃ entry found, IsStar entry ∧
      First tree root [(source.path, name)] source name source.reExports entry found

theorem ExplicitFirst.not_starFirst (explicit : ExplicitFirst tree root source name) :
    ¬StarFirst tree root source name := by
  rintro ⟨notOwn, star, _, isStar, first⟩
  rcases explicit with own | ⟨clause, _, listed, second⟩
  · exact notOwn own
  · rw [second.unique first, isStar.1] at listed
    cases listed

/-- A module leads on to another one with all names. -/
def StarsOnto (tree : FileTree) (root : Path) (source target : SourceModule) : Prop :=
  ∃ entry ∈ source.reExports, IsStar entry ∧ source.Leads tree root entry target

/-- Along `export *` a module leads on to another one that exports a name explicitly. -/
def OfferedBehindStars (tree : FileTree) (root : Path) (source : SourceModule) (name : String) :
    Prop :=
  ∃ other, Relation.ReflTransGen (StarsOnto tree root) source other ∧ other.path ≠ source.path ∧
    Offers tree root other name

/-! ## What is found -/

/-- Declarations are found behind a name, and as exports they are all of a kind. -/
def FindsAll (kind : Export → Prop) (name : String) (found : Option Found) : Prop :=
  ∃ declarations, found = some declarations ∧ declarations.1 ≠ [] ∧
    ∀ declaration ∈ declarations.1, kind ⟨name, declaration, declarations.2⟩

/-- A search finds what is exported explicitly, or through `export *`, whichever comes first. -/
structure FindsFirst (tree : FileTree) (root : Path) (source : SourceModule) (name : String)
    (found : Option Found) : Prop where
  explicit : ExplicitFirst tree root source name →
    FindsAll (Explicit tree root source) name found
  starred : StarFirst tree root source name → FindsAll (Starred tree root source) name found
  decided : Provides tree root source name →
    ExplicitFirst tree root source name ∨ StarFirst tree root source name

theorem mem_exports_of_mem_ownDeclarations {declaration : Declaration}
    (member : declaration ∈ ownDeclarations source name) :
    (name, declaration) ∈ source.exports := by
  obtain ⟨pair, pairMember, rfl⟩ := List.mem_map.mp member
  obtain ⟨pairMember, same⟩ := List.mem_filter.mp pairMember
  rwa [← eq_of_beq same]

/-- What is found behind a name is among the exports of the module. -/
theorem Yields.hasExport {barred : Asked} {found : Found} {declaration : Declaration}
    (yields : Yields tree root barred source name found) (declared : declaration ∈ found.1) :
    HasExport tree root source ⟨name, declaration, found.2⟩ := by
  induction yields with
  | own _ _ => exact .own (mem_exports_of_mem_ownDeclarations declared)
  | @handed source target entry name imported found _ notOwn member named leads yields
      ih =>
    rcases star_or_named named with ⟨star, notDefault, rfl⟩ | ⟨names, listed, pairMember⟩
    · exact .star member star leads notDefault notOwn (ih declared)
    · exact .clause member ⟨names, imported, target, found, listed, pairMember, leads,
        yields.anti (List.nil_subset _), declared, rfl⟩

theorem Chosen.explicit_or_starred {found : Found}
    (chosen : Chosen tree root [] source name found) :
    (ExplicitFirst tree root source name ∧
      FindsAll (Explicit tree root source) name (some found)) ∨
    (StarFirst tree root source name ∧
      FindsAll (Starred tree root source) name (some found)) := by
  have some := chosen.yields.nonempty
  cases chosen with
  | own _ own =>
    refine .inl ⟨.inl own, _, rfl, some, fun declaration declared => .inl ⟨rfl, ?_⟩⟩
    exact mem_exports_of_mem_ownDeclarations declared
  | @handed entry _ _ notOwn first =>
    obtain ⟨imported, target, named, leads, yields⟩ := first.reaches
    rcases star_or_named named with ⟨star, notDefault, rfl⟩ | ⟨names, listed, pairMember⟩
    · exact .inr ⟨⟨notOwn, entry, found, star, first⟩, _, rfl, some, fun declaration declared =>
        ⟨entry, first.mem, star, notDefault, notOwn, target, leads, yields.hasExport declared⟩⟩
    · refine .inl ⟨.inr ⟨entry, found, by simp [listed], first⟩, _, rfl, some,
        fun declaration declared => .inr ⟨entry, first.mem, ?_⟩⟩
      exact ⟨names, imported, target, found, listed, pairMember, leads,
        yields.anti (List.nil_subset _), declared, rfl⟩

theorem ExplicitFirst.provides (explicit : ExplicitFirst tree root source name) :
    Provides tree root source name := by
  rcases explicit with own | ⟨_, _, _, first⟩
  · exact .own own
  · exact first.provides

theorem StarFirst.provides (starFirst : StarFirst tree root source name) :
    Provides tree root source name := by
  obtain ⟨_, _, _, _, first⟩ := starFirst
  exact first.provides

/-- A search ends, and what it finds is what the first statement leads to. -/
theorem settles_findExport_first (stands : source.StandsIn tree)
    (followable : source.Followable tree root) (name : String) :
    ∃ found, Task.Settles tree (FromTree tree root) (findExport source name) (.ok found) ∧
      FindsFirst tree root source name found := by
  obtain ⟨found, _, finds, _, provides, chosen⟩ := settles_findExport stands followable name
  have decide : Provides tree root source name →
      (ExplicitFirst tree root source name ∧
        FindsAll (Explicit tree root source) name found) ∨
      (StarFirst tree root source name ∧ FindsAll (Starred tree root source) name found) := by
    intro provided
    obtain ⟨declarations, rfl⟩ := Option.isSome_iff_exists.mp (provides.mpr provided)
    exact (chosen _ rfl).explicit_or_starred
  refine ⟨found, finds, fun explicit => ?_, fun starFirst => ?_, fun provided => ?_⟩
  · rcases decide explicit.provides with ⟨_, finds⟩ | ⟨starFirst, _⟩
    · exact finds
    · exact absurd starFirst explicit.not_starFirst
  · rcases decide starFirst.provides with ⟨explicit, _⟩ | ⟨_, finds⟩
    · exact absurd starFirst explicit.not_starFirst
    · exact finds
  · exact (decide provided).imp And.left And.left

/-! ## What is listed -/

/-- A list has under a name what is exported explicitly, and next to it what is exported through
`export *`, unless the module exports the name itself. -/
structure ListsBoth (tree : FileTree) (root : Path) (source : SourceModule) (name : String)
    (exports : List Export) : Prop where
  origin : ∀ item ∈ exports, item.name = name →
    Explicit tree root source item ∨
      name ∉ source.exports.map Prod.fst ∧ Starred tree root source item
  explicit : Offers tree root source name →
    ∃ item ∈ exports, item.name = name ∧ Explicit tree root source item
  starred : name ∉ source.exports.map Prod.fst → name ≠ "default" →
    OfferedBehindStars tree root source name →
    ∃ item ∈ exports, item.name = name ∧ Starred tree root source item

/-- Every module has been seen to which `export *` leads. -/
theorem ListedAmong.seen_of_stars {other : SourceModule} {starred : List Export} {seen : List Path}
    (stars : ListedAmong tree root [source.path] source (source.reExports.filter (IsStar ·)) starred
      seen)
    (stands : source.StandsIn tree)
    (leads : Relation.ReflTransGen (StarsOnto tree root) source other) :
    other.path ∈ seen ∧ other.StandsIn tree := by
  induction leads with
  | refl => exact ⟨stars.grows (List.mem_singleton_self _), stands⟩
  | @tail middle target _ step ih =>
    obtain ⟨entry, member, star, leads⟩ := step
    obtain ⟨middleSeen, middleStands⟩ := ih
    refine ⟨?_, leads.standsIn⟩
    rcases stars.entered middle.path middleSeen with first | entered
    · cases middleStands.unique stands (List.mem_singleton.mp first)
      exact stars.onward entry (List.mem_filter.mpr ⟨member, decide_eq_true star⟩) star target leads
    · exact (entered middle middleStands rfl).1 entry member star target leads

/-- A name that is offered behind a star is listed by one of the stars. -/
theorem ListedAmong.exists_starred {starred : List Export} {seen : List Path}
    (stars : ListedAmong tree root [source.path] source (source.reExports.filter (IsStar ·)) starred
      seen)
    (stands : source.StandsIn tree) (notOwn : name ∉ source.exports.map Prod.fst)
    (notDefault : name ≠ "default") (offered : OfferedBehindStars tree root source name) :
    ∃ item ∈ starred, item.name = name ∧ Starred tree root source item := by
  obtain ⟨other, leads, different, offers⟩ := offered
  obtain ⟨seen, otherStands⟩ := stars.seen_of_stars stands leads
  have entered := (stars.entered other.path seen).resolve_left fun first =>
    different (List.mem_singleton.mp first)
  have listed := ((entered other otherStands rfl).2 name notDefault offers).resolve_right notOwn
  obtain ⟨item, member, rfl⟩ := List.mem_map.mp listed
  obtain ⟨entry, entryMember, handed⟩ := stars.sound item member
  obtain ⟨entryMember, star⟩ := List.mem_filter.mp entryMember
  refine ⟨item, member, rfl, entry, entryMember, handed.resolve_left ?_⟩
  rintro ⟨names, _, _, _, listed, _⟩
  rw [(of_decide_eq_true star).1] at listed
  cases listed

/-- A listing ends, and holds the explicit exports and those behind stars. -/
theorem settles_moduleExports_both (stands : source.StandsIn tree)
    (followable : source.Followable tree root) :
    ∃ exports, Task.Settles tree (FromTree tree root) (moduleExports source) (.ok exports) ∧
      ∀ name, ListsBoth tree root source name exports := by
  obtain ⟨exports, starred, seen, listed, part, stars, settles, _⟩ :=
    exists_listed stands followable
  refine ⟨exports, settles, fun name =>
    ⟨?_, listed.offered List.not_mem_nil name, fun notOwn notDefault offered => ?_⟩⟩
  · rintro item member rfl
    exact (listed.sound item member).explicit_or_starred
  · obtain ⟨item, member, same⟩ := stars.exists_starred stands notOwn notDefault offered
    exact ⟨item, part member, same⟩

/-- In every session that reads from the file tree, a search for a name finds what the module
exports explicitly when that comes first, and what comes through an `export *` when that is the
first re-export that leads to declarations.  The list of all exports has under the name nothing
else, but what comes through `export *` stands in it next to the explicit exports, unless the module
exports the name itself. -/
theorem explicit_exports_win_unless_star_first (stands : source.StandsIn tree)
    (followable : source.Followable tree root) :
    ∃ exports, Task.Settles tree (FromTree tree root) (moduleExports source) (.ok exports) ∧
      ∀ name, ListsBoth tree root source name exports ∧
        ∃ found, Task.Settles tree (FromTree tree root) (findExport source name) (.ok found) ∧
          FindsFirst tree root source name found := by
  obtain ⟨exports, lists, both⟩ := settles_moduleExports_both stands followable
  exact ⟨exports, lists, fun name => ⟨both name, settles_findExport_first stands followable name⟩⟩

/-! ## The same statements in both orders -/

/-- The file that declares a type. -/
def declaringFile : Node := program [typeStatement "Word"]

/-- The file that hands on all exports of one file, and then the type of another one by name. -/
def starFirstFile : Node := program [starStatement "./a", renamingStatement "Word" "Word" "./b"]

/-- The file with these statements in the other order. -/
def clauseFirstFile : Node := program [renamingStatement "Word" "Word" "./b", starStatement "./a"]

/-- A file tree with both files, and those that they hand on from. -/
def ordersTree : FileTree :=
  ⟨.directory [("a.ts", .file .empty (some declaringFile)),
    ("b.ts", .file .empty (some declaringFile)),
    ("c.ts", .file .empty (some clauseFirstFile)),
    ("s.ts", .file .empty (some starFirstFile))], []⟩

/-- The module that is handed on with all names. -/
def wholeModule : SourceModule := .ofTree (.ofRoot ["a.ts"]) .plain declaringFile

/-- The module of which one name is handed on. -/
def namedModule : SourceModule := .ofTree (.ofRoot ["b.ts"]) .plain declaringFile

/-- The modules that hand on, in both orders. -/
def clauseFirstModule : SourceModule := .ofTree (.ofRoot ["c.ts"]) .plain clauseFirstFile

@[inherit_doc clauseFirstModule]
def starFirstModule : SourceModule := .ofTree (.ofRoot ["s.ts"]) .plain starFirstFile

/-- The re-export with all names. -/
def wholeEntry : ReExport := ⟨"./a", none, none⟩

/-- The re-export of one name. -/
def namedEntry : ReExport := ⟨"./b", some [("Word", "Word")], none⟩

theorem standsIn_wholeModule : wholeModule.StandsIn ordersTree :=
  ⟨⟨["a.ts"], _, rfl, rfl, rfl, by decide⟩, rfl⟩

theorem standsIn_namedModule : namedModule.StandsIn ordersTree :=
  ⟨⟨["b.ts"], _, rfl, rfl, rfl, by decide⟩, rfl⟩

theorem standsIn_clauseFirstModule : clauseFirstModule.StandsIn ordersTree :=
  ⟨⟨["c.ts"], _, rfl, rfl, rfl, by decide⟩, rfl⟩

theorem standsIn_starFirstModule : starFirstModule.StandsIn ordersTree :=
  ⟨⟨["s.ts"], _, rfl, rfl, rfl, by decide⟩, rfl⟩

theorem leadingTable_orders :
    LeadingTable ordersTree [clauseFirstModule, starFirstModule, wholeModule, namedModule] where
  leads := by decide +kernel
  stands := by
    rintro source (_ | ⟨_, _ | ⟨_, _ | ⟨_, _ | ⟨_, ⟨⟩⟩⟩⟩⟩)
    exacts [standsIn_clauseFirstModule, standsIn_starFirstModule, standsIn_wholeModule,
      standsIn_namedModule]

theorem clauseFirst_reaches :
    Reaches ordersTree (.ofRoot []) [(clauseFirstModule.path, "Word")] clauseFirstModule "Word"
      namedEntry (ownDeclarations namedModule "Word", namedModule) :=
  ⟨"Word", namedModule, rfl, leads_of_path standsIn_namedModule rfl, .own (by decide) (.head _)⟩

theorem leads_wholeEntry :
    starFirstModule.Leads ordersTree (.ofRoot []) wholeEntry wholeModule :=
  leads_of_path standsIn_wholeModule rfl

theorem leads_namedEntry :
    starFirstModule.Leads ordersTree (.ofRoot []) namedEntry namedModule :=
  leads_of_path standsIn_namedModule rfl

theorem starFirst_reaches :
    Reaches ordersTree (.ofRoot []) [(starFirstModule.path, "Word")] starFirstModule "Word"
      wholeEntry (ownDeclarations wholeModule "Word", wholeModule) :=
  ⟨"Word", wholeModule, rfl, leads_wholeEntry, .own (by decide) (.head _)⟩

theorem offeredBehindStars_clauseFirst :
    OfferedBehindStars ordersTree (.ofRoot []) clauseFirstModule "Word" :=
  ⟨wholeModule, .single ⟨wholeEntry, .tail _ (.head _), ⟨rfl, rfl⟩,
    leads_of_path standsIn_wholeModule rfl⟩, by decide, .inl (.head _)⟩

/-- When the clause comes first, the search finds what it hands on, and the list has both. -/
theorem clause_first_wins :
    ∃ exports found,
      Task.Settles ordersTree (FromTree ordersTree (.ofRoot []))
        (moduleExports clauseFirstModule) (.ok exports) ∧
      Task.Settles ordersTree (FromTree ordersTree (.ofRoot []))
        (findExport clauseFirstModule "Word") (.ok found) ∧
      FindsAll (Explicit ordersTree (.ofRoot []) clauseFirstModule) "Word" found ∧
      ∃ item ∈ exports, item.name = "Word" ∧
        Starred ordersTree (.ofRoot []) clauseFirstModule item := by
  obtain ⟨exports, lists, each⟩ := explicit_exports_win_unless_star_first
    standsIn_clauseFirstModule (leadingTable_orders.followable (.head _))
  obtain ⟨both, found, finds, first⟩ := each "Word"
  refine ⟨exports, found, lists, finds, ?_, ?_⟩
  · exact first.explicit (.inr ⟨namedEntry, _, rfl, first_head clauseFirst_reaches⟩)
  · exact both.starred List.not_mem_nil (by decide) offeredBehindStars_clauseFirst

theorem source_of_hasExport_wholeModule {item : Export}
    (exported : HasExport ordersTree (.ofRoot []) wholeModule item) :
    item.source = wholeModule := by
  cases exported with
  | own _ => rfl
  | clause member _ => cases member
  | star member _ _ _ _ _ => cases member

theorem source_of_yields_namedModule {found : Found}
    (yields : Yields ordersTree (.ofRoot []) [] namedModule "Word" found) :
    found.2 = namedModule := by
  cases yields with
  | own _ _ => rfl
  | handed _ _ member _ _ _ => cases member

/-- What the one file hands on with all names stands in another file than what it hands on by name.
-/
theorem not_explicit_of_starred {item : Export}
    (starred : Starred ordersTree (.ofRoot []) starFirstModule item) :
    ¬Explicit ordersTree (.ofRoot []) starFirstModule item := by
  obtain ⟨entry, member, star, _, _, target, leads, exported⟩ := starred
  have entries : starFirstModule.reExports = [wholeEntry, namedEntry] := rfl
  have ofWhole : item.source = wholeModule := by
    rw [entries] at member
    rcases member with _ | ⟨_, _ | ⟨_, ⟨⟩⟩⟩
    · cases leads.unique leads_wholeEntry
      exact source_of_hasExport_wholeModule exported
    · cases star.1
  rintro (⟨_, own⟩ | ⟨clause, clauseMember, names, imported, other, found, listed, pairMember,
    otherLeads, yields, _, ofNamed⟩)
  · cases own
  · rw [entries] at clauseMember
    rcases clauseMember with _ | ⟨_, _ | ⟨_, ⟨⟩⟩⟩
    · cases listed
    · cases otherLeads.unique leads_namedEntry
      cases listed
      obtain ⟨_, rfl⟩ := Prod.mk.inj (List.mem_singleton.mp pairMember)
      rw [ofNamed, source_of_yields_namedModule yields] at ofWhole
      exact absurd (congrArg SourceModule.path ofWhole) (by decide)

/-- When `export *` comes first, the search finds what it hands on and not what the clause does, and
the list has it as well, although the file exports the name explicitly. -/
theorem star_hides_clause :
    Offers ordersTree (.ofRoot []) starFirstModule "Word" ∧
    ∃ exports found,
      Task.Settles ordersTree (FromTree ordersTree (.ofRoot []))
        (moduleExports starFirstModule) (.ok exports) ∧
      Task.Settles ordersTree (FromTree ordersTree (.ofRoot []))
        (findExport starFirstModule "Word") (.ok found) ∧
      FindsAll (fun item => ¬Explicit ordersTree (.ofRoot []) starFirstModule item) "Word" found ∧
      ∃ item ∈ exports, item.name = "Word" ∧
        Starred ordersTree (.ofRoot []) starFirstModule item ∧
        ¬Explicit ordersTree (.ofRoot []) starFirstModule item := by
  have followable := leadingTable_orders.followable (.tail _ (.head _))
  obtain ⟨exports, lists, both⟩ := settles_moduleExports_both standsIn_starFirstModule followable
  obtain ⟨found, finds, first⟩ :=
    settles_findExport_first standsIn_starFirstModule followable "Word"
  refine ⟨.inr ⟨namedEntry, .tail _ (.head _), _, "Word", namedModule, rfl, .head _,
    leads_namedEntry, .own (.head _)⟩, exports, found, lists, finds, ?_, ?_⟩
  · obtain ⟨declarations, same, some, starred⟩ := first.starred
      ⟨List.not_mem_nil, wholeEntry, _, ⟨rfl, rfl⟩, first_head starFirst_reaches⟩
    exact ⟨declarations, same, some, fun declaration declared =>
      not_explicit_of_starred (starred declaration declared)⟩
  · have offered : OfferedBehindStars ordersTree (.ofRoot []) starFirstModule "Word" :=
      ⟨wholeModule, .single ⟨wholeEntry, .head _, ⟨rfl, rfl⟩, leads_wholeEntry⟩, by decide,
        .inl (.head _)⟩
    obtain ⟨item, member, same, starred⟩ :=
      (both "Word").starred List.not_mem_nil (by decide) offered
    exact ⟨item, member, same, starred, not_explicit_of_starred starred⟩

end Types
end ModuleAtlas
