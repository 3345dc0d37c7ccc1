import ModuleAtlas.Proofs.Types.ExportSearch

/-!
# Listing all exports

A list of exports goes along `export *` from module to module and enters none of them twice.  What a
module offers by itself is listed when the module is entered, and further up a name is hidden only
by a module that exports it itself.  So the names in the list are those that a search finds, as long
as no export clause gives one name twice.
-/

namespace ModuleAtlas
namespace Types

open Session

variable {tree : FileTree} {root : Path} {source : SourceModule} {entry : ReExport}

/-! ## Clauses -/

/-- A re-export hands on all names, `default` apart. -/
def IsStar (entry : ReExport) : Prop := entry.names = none ∧ entry.nameSpace = none

instance (entry : ReExport) : Decidable (IsStar entry) := inferInstanceAs (Decidable (_ ∧ _))

/-- A module exports a name itself, or hands it on by name from a module that provides it. -/
def Offers (tree : FileTree) (root : Path) (source : SourceModule) (name : String) : Prop :=
  name ∈ source.exports.map Prod.fst ∨
  ∃ entry ∈ source.reExports, ∃ names imported target, entry.names = some names ∧
    (name, imported) ∈ names ∧ source.Leads tree root entry target ∧
    Provides tree root target imported

/-- No re-export of a module, or of the modules that it hands on from, gives one name twice. -/
def GivesNamesOnce (tree : FileTree) (root : Path) (source : SourceModule) : Prop :=
  ∀ other, Relation.ReflTransGen (SourceModule.HandsOnFrom tree root) source other →
    ∀ entry ∈ other.reExports, ∀ names, entry.names = some names → (names.map Prod.fst).Nodup

theorem GivesNamesOnce.next {source target : SourceModule}
    (once : GivesNamesOnce tree root source) (member : entry ∈ source.reExports)
    (leads : source.Leads tree root entry target) :
    GivesNamesOnce tree root target :=
  fun other reaches => once other (.head ⟨entry, member, leads⟩ reaches)

section Entries

variable {source target : SourceModule} {entry : ReExport} {name imported : String}
  {names : List (String × String)}

theorem provides_of_star (member : entry ∈ source.reExports) (star : IsStar entry)
    (leads : source.Leads tree root entry target) (notDefault : name ≠ "default")
    (provides : Provides tree root target name) :
    Provides tree root source name := by
  refine .handed member ?_ leads provides
  simp [ReExport.sourceName?, star.1, star.2, notDefault]

theorem provides_of_named (member : entry ∈ source.reExports) (listed : entry.names = some names)
    (once : (names.map Prod.fst).Nodup) (pairMember : (name, imported) ∈ names)
    (leads : source.Leads tree root entry target) (provides : Provides tree root target imported) :
    Provides tree root source name := by
  refine .handed member ?_ leads provides
  rw [ReExport.sourceName?, listed]
  exact lookup_eq_some_of_nodup once pairMember

/-- A name is handed on together with all names, or it is listed. -/
theorem star_or_named (handed : ReExport.sourceName? entry name = some imported) :
    (IsStar entry ∧ name ≠ "default" ∧ imported = name) ∨
      ∃ names, entry.names = some names ∧ (name, imported) ∈ names := by
  unfold ReExport.sourceName? at handed
  split at handed
  · rename_i all
    split at handed
    · cases handed
    · rename_i whole
      cases handed
      simp only [Bool.or_eq_true, beq_iff_eq, not_or, Option.not_isSome_iff_eq_none] at whole
      exact .inl ⟨⟨all, whole.1⟩, whole.2, rfl⟩
  · rename_i names listed
    obtain ⟨early, late, split, _⟩ := List.lookup_eq_some_iff.mp handed
    exact .inr ⟨names, listed, by simp [split]⟩

/-- A default export is never handed on together with all names. -/
theorem Provides.offers_default (provides : Provides tree root source "default") :
    Offers tree root source "default" := by
  cases provides with
  | own member => exact .inl member
  | @handed _ target entry _ imported member handed leads provides =>
    rcases star_or_named handed with ⟨_, notDefault, _⟩ | ⟨names, listed, pairMember⟩
    · exact absurd rfl notDefault
    · exact .inr ⟨entry, member, names, imported, target, listed, pairMember, leads, provides⟩

end Entries

/-! ## Where exports come from -/

/-- A clause of a module hands an export on by name. -/
def ByClause (tree : FileTree) (root : Path) (source : SourceModule) (entry : ReExport)
    (item : Export) : Prop :=
  ∃ names imported target found, entry.names = some names ∧ (item.name, imported) ∈ names ∧
    source.Leads tree root entry target ∧ Yields tree root [] target imported found ∧
    item.declaration ∈ found.1 ∧ item.source = found.2

/-- An export that a module has itself, or that a clause of it hands on. -/
def Explicit (tree : FileTree) (root : Path) (source : SourceModule) (item : Export) : Prop :=
  (item.source = source ∧ (item.name, item.declaration) ∈ source.exports) ∨
    ∃ entry ∈ source.reExports, ByClause tree root source entry item

/-- An export of a module: its own, one that a clause hands on, or one of the module that an
`export *` leads to, unless it is the default export or has the name of an own one. -/
inductive HasExport (tree : FileTree) (root : Path) : SourceModule → Export → Prop where
  | own {source : SourceModule} {name : String} {declaration : Declaration}
      (member : (name, declaration) ∈ source.exports) :
      HasExport tree root source ⟨name, declaration, source⟩
  | clause {source : SourceModule} {entry : ReExport} {item : Export}
      (member : entry ∈ source.reExports)
      (handed : ByClause tree root source entry item) :
      HasExport tree root source item
  | star {source target : SourceModule} {entry : ReExport} {item : Export}
      (member : entry ∈ source.reExports)
      (star : IsStar entry)
      (leads : source.Leads tree root entry target)
      (notDefault : item.name ≠ "default")
      (notOwn : item.name ∉ source.exports.map Prod.fst)
      (exported : HasExport tree root target item) :
      HasExport tree root source item

/-- An `export *` of a module hands an export on. -/
def ByStar (tree : FileTree) (root : Path) (source : SourceModule) (entry : ReExport)
    (item : Export) : Prop :=
  IsStar entry ∧ item.name ≠ "default" ∧ item.name ∉ source.exports.map Prod.fst ∧
    ∃ target, source.Leads tree root entry target ∧ HasExport tree root target item

section Origins

variable {source : SourceModule} {entry : ReExport} {item : Export}

theorem hasExport_of_handed (member : entry ∈ source.reExports)
    (handed : ByClause tree root source entry item ∨ ByStar tree root source entry item) :
    HasExport tree root source item := by
  rcases handed with clause | ⟨star, notDefault, notOwn, target, leads, exported⟩
  · exact .clause member clause
  · exact .star member star leads notDefault notOwn exported

theorem HasExport.provides (exported : HasExport tree root source item)
    (once : GivesNamesOnce tree root source) :
    Provides tree root source item.name := by
  induction exported with
  | own member => exact .own (List.mem_map_of_mem member)
  | @clause source entry item member handed =>
    obtain ⟨names, imported, target, _, listed, pairMember, leads, yields, _⟩ := handed
    exact provides_of_named member listed (once source .refl entry member names listed) pairMember
      leads yields.provides
  | star member star leads notDefault _ _ ih =>
    exact provides_of_star member star leads notDefault (ih (once.next member leads))

end Origins

/-! ## What lists come to -/

/-- A module has been entered: it leads on to modules that are seen, and what it offers is listed,
`default` apart. -/
def Entered (tree : FileTree) (root : Path) (seen : List Path) (listed : String → Prop)
    (path : Path) : Prop :=
  ∀ source : SourceModule, source.StandsIn tree → source.path = path →
    (∀ entry ∈ source.reExports, IsStar entry → ∀ target,
      source.Leads tree root entry target → target.path ∈ seen) ∧
    ∀ name, name ≠ "default" → Offers tree root source name → listed name

theorem Entered.mono {seen more : List Path} {listed wider : String → Prop} {path : Path}
    (entered : Entered tree root seen listed path) (grows : seen ⊆ more)
    (implied : ∀ name, name ≠ "default" → listed name → wider name) :
    Entered tree root more wider path := by
  intro source stands same
  obtain ⟨onward, offered⟩ := entered source stands same
  exact ⟨fun entry member star target leads => grows (onward entry member star target leads),
    fun name notDefault offers => implied name notDefault (offered name notDefault offers)⟩

/-- The names of exports. -/
def exportNames (exports : List Export) : List String := exports.map Export.name

@[simp]
theorem exportNames_append (first second : List Export) :
    exportNames (first ++ second) = exportNames first ++ exportNames second :=
  List.map_append

/-- What the list of a module comes to that is begun when some modules are seen. -/
structure Listed (tree : FileTree) (root : Path) (before : List Path) (source : SourceModule)
    (exports : List Export) (after : List Path) : Prop where
  grows : before ⊆ after
  seen : source.path ∈ after
  sound : ∀ item ∈ exports, HasExport tree root source item
  offered : source.path ∉ before → ∀ name, Offers tree root source name →
    ∃ item ∈ exports, item.name = name ∧ Explicit tree root source item
  entered : ∀ path ∈ after, path ∈ before ∨
    Entered tree root after (fun name => name ∈ exportNames exports) path

/-- What the list of some re-exports of a module comes to. -/
structure ListedAmong (tree : FileTree) (root : Path) (before : List Path) (source : SourceModule)
    (entries : List ReExport) (exports : List Export) (after : List Path) : Prop where
  grows : before ⊆ after
  sound : ∀ item ∈ exports, ∃ entry ∈ entries,
    ByClause tree root source entry item ∨ ByStar tree root source entry item
  named : ∀ entry ∈ entries, ∀ names name imported target, entry.names = some names →
    (name, imported) ∈ names → source.Leads tree root entry target →
      Provides tree root target imported →
        ∃ item ∈ exports, item.name = name ∧ ByClause tree root source entry item
  onward : ∀ entry ∈ entries, IsStar entry → ∀ target,
    source.Leads tree root entry target → target.path ∈ after
  entered : ∀ path ∈ after, path ∈ before ∨
    Entered tree root after
      (fun name => name ∈ exportNames exports ∨ name ∈ source.exports.map Prod.fst) path

/-- What the list of the named items of a clause comes to: declarations behind the names in the
module that the clause leads to, and some for every name that this one provides. -/
structure ListedNamed (tree : FileTree) (root : Path) (target : SourceModule)
    (names : List (String × String)) (exports : List Export) : Prop where
  sound : ∀ item ∈ exports, ∃ imported found, (item.name, imported) ∈ names ∧
    Yields tree root [] target imported found ∧ item.declaration ∈ found.1 ∧ item.source = found.2
  complete : ∀ name imported, (name, imported) ∈ names → Provides tree root target imported →
    name ∈ exportNames exports

section Named

variable {target : SourceModule} {names : List (String × String)} {exports : List Export}
  {exported imported : String} {found : Found}

theorem listedNamed_nil : ListedNamed tree root target [] [] := ⟨nofun, nofun⟩

/-- A name that the other module does not provide gives nothing. -/
theorem ListedNamed.skip (listed : ListedNamed tree root target names exports)
    (missing : ¬Provides tree root target imported) :
    ListedNamed tree root target ((exported, imported) :: names) exports where
  sound := fun item member => by
    obtain ⟨other, found, pairMember, way⟩ := listed.sound item member
    exact ⟨other, found, List.mem_cons_of_mem _ pairMember, way⟩
  complete := fun name other member provides => by
    rcases List.mem_cons.mp member with same | later
    · cases same
      exact absurd provides missing
    · exact listed.complete name other later provides

theorem ListedNamed.cons (listed : ListedNamed tree root target names exports)
    (yields : Yields tree root [] target imported found) :
    ListedNamed tree root target ((exported, imported) :: names)
      (found.1.map (fun declaration => ⟨exported, declaration, found.2⟩) ++ exports) where
  sound := fun item member => by
    rcases List.mem_append.mp member with early | late
    · obtain ⟨declaration, declared, rfl⟩ := List.mem_map.mp early
      exact ⟨imported, found, List.mem_cons_self, yields, declared, rfl⟩
    · obtain ⟨other, others, pairMember, way⟩ := listed.sound item late
      exact ⟨other, others, List.mem_cons_of_mem _ pairMember, way⟩
  complete := fun name other member provides => by
    rw [exportNames_append]
    rcases List.mem_cons.mp member with same | later
    · cases same
      obtain ⟨declaration, others, some⟩ := List.exists_cons_of_ne_nil yields.nonempty
      exact List.mem_append_left _ (by simp [exportNames, some])
    · exact List.mem_append_right _ (listed.complete name other later provides)

end Named

section Among

variable {before middle after : List Path} {source target : SourceModule} {entry : ReExport}
  {entries rest : List ReExport} {exports here more : List Export} {names : List (String × String)}

theorem listedAmong_nil (before : List Path) (source : SourceModule) :
    ListedAmong tree root before source [] [] before :=
  ⟨fun _ member => member, nofun, nofun, nofun, fun _ member => .inl member⟩

theorem ListedAmong.cons (first : ListedAmong tree root before source [entry] here middle)
    (others : ListedAmong tree root middle source rest more after) :
    ListedAmong tree root before source (entry :: rest) (here ++ more) after where
  grows := fun _ member => others.grows (first.grows member)
  sound := fun item member => by
    rcases List.mem_append.mp member with early | late
    · obtain ⟨other, otherMember, handed⟩ := first.sound item early
      cases List.mem_singleton.mp otherMember
      exact ⟨_, List.mem_cons_self, handed⟩
    · obtain ⟨other, otherMember, handed⟩ := others.sound item late
      exact ⟨other, List.mem_cons_of_mem _ otherMember, handed⟩
  named := fun other member names name imported target listed pairMember leads provides => by
    rcases List.mem_cons.mp member with rfl | later
    · obtain ⟨item, itemMember, handed⟩ :=
        first.named other List.mem_cons_self _ _ _ _ listed pairMember leads provides
      exact ⟨item, List.mem_append_left _ itemMember, handed⟩
    · obtain ⟨item, itemMember, handed⟩ :=
        others.named other later _ _ _ _ listed pairMember leads provides
      exact ⟨item, List.mem_append_right _ itemMember, handed⟩
  onward := fun other member star target leads => by
    rcases List.mem_cons.mp member with rfl | later
    · exact others.grows (first.onward other List.mem_cons_self star target leads)
    · exact others.onward other later star target leads
  entered := fun path member => by
    rw [exportNames_append]
    rcases others.entered path member with early | entered
    · refine (first.entered path early).imp_right fun entered => entered.mono others.grows ?_
      exact fun name _ listed => listed.imp_left (List.mem_append_left _)
    · refine .inr (entered.mono (List.Subset.refl _) ?_)
      exact fun name _ listed => listed.imp_left (List.mem_append_right _)

/-- A re-export that leads nowhere gives nothing. -/
theorem listedAmong_of_nowhere
    (before : List Path)
    (nowhere : ∀ target, ¬source.Leads tree root entry target) :
    ListedAmong tree root before source [entry] [] before where
  grows := fun _ member => member
  sound := nofun
  named := fun other member _ _ _ target _ _ leads => by
    cases List.mem_singleton.mp member
    exact absurd leads (nowhere target)
  onward := fun other member _ target leads => by
    cases List.mem_singleton.mp member
    exact absurd leads (nowhere target)
  entered := fun _ member => .inl member

/-- A re-export under the name of a module gives nothing. -/
theorem listedAmong_of_nameSpace (before : List Path) (source : SourceModule)
    (hasNameSpace : entry.nameSpace.isSome) (whole : entry.names = none) :
    ListedAmong tree root before source [entry] [] before where
  grows := fun _ member => member
  sound := nofun
  named := fun other member _ _ _ _ listed => by
    cases List.mem_singleton.mp member
    rw [whole] at listed
    cases listed
  onward := fun other member star => by
    cases List.mem_singleton.mp member
    rw [star.2] at hasNameSpace
    cases hasNameSpace
  entered := fun _ member => .inl member

/-- The exports of the module that a re-export leads to with all names, without `default` and
without those that the module around exports itself. -/
theorem Listed.among (listed : Listed tree root before target exports after) (star : IsStar entry)
    (leads : source.Leads tree root entry target) :
    ListedAmong tree root before source [entry]
      (exports.filter fun found =>
        found.name != "default" && !(source.exports.map (·.1)).contains found.name) after where
  grows := listed.grows
  sound := fun item itemMember => by
    obtain ⟨itemMember, kept⟩ := List.mem_filter.mp itemMember
    simp only [Bool.and_eq_true, bne_iff_ne, Bool.not_eq_true', List.contains_eq_mem,
      decide_eq_false_iff_not] at kept
    exact ⟨entry, List.mem_singleton_self entry,
      .inr ⟨star, kept.1, kept.2, target, leads, listed.sound item itemMember⟩⟩
  named := fun other otherMember _ _ _ _ names => by
    cases List.mem_singleton.mp otherMember
    rw [star.1] at names
    cases names
  onward := fun other otherMember _ otherTarget otherLeads => by
    cases List.mem_singleton.mp otherMember
    cases leads.unique otherLeads
    exact listed.seen
  entered := fun path pathMember => by
    refine (listed.entered path pathMember).imp_right fun entered =>
      entered.mono (List.Subset.refl _) fun name notDefault nameMember => ?_
    obtain ⟨found, foundMember, rfl⟩ := List.mem_map.mp nameMember
    by_cases own : found.name ∈ source.exports.map Prod.fst
    · exact .inr own
    · refine .inl (List.mem_map_of_mem (List.mem_filter.mpr ⟨foundMember, ?_⟩))
      simpa [notDefault] using own

/-- The exports that a clause hands on by name. -/
theorem listedAmong_of_named (before : List Path) (listed : entry.names = some names)
    (leads : source.Leads tree root entry target)
    (named : ListedNamed tree root target names exports) :
    ListedAmong tree root before source [entry] exports before := by
  have byClause : ∀ item ∈ exports, ByClause tree root source entry item := by
    intro item member
    obtain ⟨imported, found, pairMember, yields, declared, stands⟩ := named.sound item member
    exact ⟨names, imported, target, found, listed, pairMember, leads, yields, declared, stands⟩
  constructor
  case grows => exact fun _ member => member
  case sound =>
    exact fun item member => ⟨entry, List.mem_singleton_self entry, .inl (byClause item member)⟩
  case named =>
    intro other otherMember otherNames name imported otherTarget otherListed pairMember otherLeads
      provides
    cases List.mem_singleton.mp otherMember
    rw [listed] at otherListed
    cases otherListed
    cases leads.unique otherLeads
    obtain ⟨item, member, same⟩ :=
      List.mem_map.mp (named.complete name imported pairMember provides)
    exact ⟨item, member, same, byClause item member⟩
  case onward =>
    intro other otherMember star
    cases List.mem_singleton.mp otherMember
    rw [star.1] at listed
    cases listed
  case entered => exact fun _ member => .inl member

/-- The own exports of a module and those of all its re-exports. -/
theorem ListedAmong.listed
    (among : ListedAmong tree root (source.path :: before) source source.reExports exports after)
    (stands : source.StandsIn tree) :
    Listed tree root before source
      (source.exports.map (fun entry => ⟨entry.1, entry.2, source⟩) ++ exports) after := by
  have own : exportNames (source.exports.map fun entry => ⟨entry.1, entry.2, source⟩) =
      source.exports.map Prod.fst := by
    simp [exportNames]
  have offered : ∀ name, Offers tree root source name →
      ∃ item ∈ source.exports.map (fun entry => ⟨entry.1, entry.2, source⟩) ++ exports,
        item.name = name ∧ Explicit tree root source item := by
    rintro name (member | ⟨entry, member, names, imported, target, listed, rest⟩)
    · obtain ⟨entry, entryMember, rfl⟩ := List.mem_map.mp member
      exact ⟨_, List.mem_append_left _ (List.mem_map_of_mem entryMember), rfl,
        .inl ⟨rfl, entryMember⟩⟩
    · obtain ⟨pairMember, leads, provides⟩ := rest
      obtain ⟨item, itemMember, same, handed⟩ :=
        among.named entry member names name imported target listed pairMember leads provides
      exact ⟨item, List.mem_append_right _ itemMember, same, .inr ⟨entry, member, handed⟩⟩
  constructor
  case grows => exact fun _ member => among.grows (List.mem_cons_of_mem _ member)
  case seen => exact among.grows List.mem_cons_self
  case sound =>
    intro item member
    rcases List.mem_append.mp member with early | late
    · obtain ⟨_, pairMember, rfl⟩ := List.mem_map.mp early
      exact .own pairMember
    · obtain ⟨_, entryMember, handed⟩ := among.sound item late
      exact hasExport_of_handed entryMember handed
  case offered => exact fun _ => offered
  case entered =>
    intro path member
    rcases among.entered path member with early | entered
    · rcases List.mem_cons.mp early with rfl | old
      · refine .inr fun other otherStands same => ?_
        cases otherStands.unique stands same
        refine ⟨among.onward, fun name _ offers => ?_⟩
        obtain ⟨item, itemMember, rfl, _⟩ := offered name offers
        exact List.mem_map_of_mem itemMember
      · exact .inl old
    · refine .inr (entered.mono (List.Subset.refl _) fun name _ listed => ?_)
      rw [exportNames_append, own]
      exact List.mem_append.mpr listed.symm

/-- A module that is seen is not listed again. -/
theorem listed_of_seen (seen : source.path ∈ before) :
    Listed tree root before source [] before where
  grows := fun _ member => member
  seen := seen
  sound := nofun
  offered := fun new => absurd seen new
  entered := fun _ member => .inl member

end Among

/-! ## The list -/

/-- The names of a clause are listed as the exports that they lead to. -/
theorem settles_namedExports {target : SourceModule} (stands : target.StandsIn tree)
    (followable : target.Followable tree root) (names : List (String × String)) :
    ∃ exports, Task.Settles tree (FromTree tree root) (namedExports target names) (.ok exports) ∧
      ListedNamed tree root target names exports := by
  induction names with
  | nil => exact ⟨[], Task.settles_pure _, listedNamed_nil⟩
  | cons pair rest ih =>
    obtain ⟨exported, imported⟩ := pair
    obtain ⟨exports, settles, named⟩ := ih
    obtain ⟨found, _, finds, _, provides, chosen⟩ :=
      settles_findExport stands followable imported
    cases found with
    | none =>
      refine ⟨[] ++ exports, finds.bind (settles.bind (Task.settles_pure _)), named.skip ?_⟩
      exact fun provided => absurd (provides.mpr provided) Bool.false_ne_true
    | some declarations =>
      exact ⟨_, finds.bind (settles.bind (Task.settles_pure _)), named.cons (chosen _ rfl).yields⟩

/-- Lists that leave at most so many files unseen come to an end, each in no more steps. -/
def ListsEnd (tree : FileTree) (root : Path) (room : Nat) : Prop :=
  ∀ (before : List Path) (source : SourceModule),
    source.StandsIn tree → source.Followable tree root →
    remaining tree.located before ≤ room →
    ∃ exports after, Listed tree root before source exports after ∧
      ∀ fuel, room < fuel →
        Task.Settles tree (FromTree tree root) (exportsWith fuel before source)
          (.ok (exports, after))

/-- The first of some re-exports, and how the list goes on from there.  Only with all names does a
re-export enter modules. -/
theorem ListsEnd.first {room : Nat} {before : List Path}
    (ends : ListsEnd tree root room) (stands : source.StandsIn tree)
    (followable : source.Followable tree root) (member : entry ∈ source.reExports)
    (enough : remaining tree.located before ≤ room) (rest : List ReExport) :
    ∃ here middle, ListedAmong tree root before source [entry] here middle ∧
      (IsStar entry ∨ middle = before) ∧
      ∀ fuel, room < fuel → ∀ more after,
        Task.Settles tree (FromTree tree root)
          (exportsAmong (exportsWith fuel) source middle rest) (.ok (more, after)) →
        Task.Settles tree (FromTree tree root)
          (exportsAmong (exportsWith fuel) source before (entry :: rest))
          (.ok (here ++ more, after)) := by
  obtain ⟨loaded, loads, leadsTo⟩ := followable.settles_load member
  cases loaded with
  | none =>
    refine ⟨[], before, listedAmong_of_nowhere before fun target leads => ?_,
      .inr rfl, fun fuel less more after settles => ?_⟩
    · cases (leadsTo target).mpr leads
    · exact loads.bind (settles.bind (Task.settles_pure _))
  | some target =>
    have leads := (leadsTo target).mp rfl
    have targetFollowable := followable.next member leads
    cases nameSpace : entry.nameSpace with
    | some name =>
      have hasNameSpace : entry.nameSpace.isSome := by
        rw [nameSpace]
        rfl
      refine ⟨[], before, listedAmong_of_nameSpace before source hasNameSpace
        (stands.nameSpace member hasNameSpace), .inr rfl,
        fun fuel less more after settles => ?_⟩
      refine loads.bind ?_
      dsimp only
      rw [nameSpace]
      exact settles.bind (Task.settles_pure _)
    | none =>
      cases listed : entry.names with
      | none =>
        obtain ⟨all, middle, targetListed, settlesAll⟩ := ends before target leads.standsIn
          targetFollowable enough
        refine ⟨_, middle, targetListed.among ⟨listed, nameSpace⟩ leads,
          .inl ⟨listed, nameSpace⟩, fun fuel less more after settles => ?_⟩
        refine loads.bind ?_
        dsimp only
        rw [nameSpace, listed]
        exact (settlesAll fuel less).bind (settles.bind (Task.settles_pure _))
      | some names =>
        obtain ⟨here, settlesHere, named⟩ :=
          settles_namedExports leads.standsIn targetFollowable names
        refine ⟨here, before, listedAmong_of_named before listed leads named,
          .inr rfl, fun fuel less more after settles => ?_⟩
        refine loads.bind ?_
        dsimp only
        rw [nameSpace, listed]
        exact settlesHere.bind (settles.bind (Task.settles_pure _))

/-- The list of some re-exports.  What those among them give that hand on all names is as if there
were no others. -/
theorem ListsEnd.among
    {room : Nat} {entries : List ReExport} {before : List Path}
    (ends : ListsEnd tree root room) (stands : source.StandsIn tree)
    (followable : source.Followable tree root) (included : entries ⊆ source.reExports)
    (enough : remaining tree.located before ≤ room) :
    ∃ exports starred after, ListedAmong tree root before source entries exports after ∧
      starred ⊆ exports ∧
      ListedAmong tree root before source (entries.filter (IsStar ·)) starred after ∧
      ∀ fuel, room < fuel →
        Task.Settles tree (FromTree tree root)
          (exportsAmong (exportsWith fuel) source before entries) (.ok (exports, after)) := by
  induction entries generalizing before with
  | nil =>
    exact ⟨[], [], before, listedAmong_nil before source, List.Subset.refl _,
      listedAmong_nil before source, fun _ _ => Task.settles_pure _⟩
  | cons entry rest ih =>
    obtain ⟨here, middle, first, starOrSame, runs⟩ :=
      ends.first stands followable (included List.mem_cons_self) enough rest
    have less := (remaining_le_of_subset first.grows).trans enough
    obtain ⟨more, starred, after, others, among, stars, settles⟩ := ih
      (fun other otherMember => included (List.mem_cons_of_mem _ otherMember)) less
    have settlesAll := fun fuel less => runs fuel less more after (settles fuel less)
    by_cases star : IsStar entry
    · refine ⟨here ++ more, here ++ starred, after, first.cons others,
        List.append_subset.mpr ⟨List.subset_append_left _ _,
          List.Subset.trans among (List.subset_append_right _ _)⟩, ?_, settlesAll⟩
      simp only [List.filter_cons, star, decide_true, if_true]
      exact first.cons stars
    · cases starOrSame.resolve_left star
      refine ⟨here ++ more, starred, after, first.cons others,
        List.Subset.trans among (List.subset_append_right _ _), ?_, settlesAll⟩
      simp only [List.filter_cons, star, decide_false, if_neg Bool.false_ne_true]
      exact stars

section Steps

variable {fuel : Nat} {before after : List Path} {source : SourceModule} {more : List Export}

theorem exportsWith_of_seen (seen : source.path ∈ before) :
    exportsWith (fuel + 1) before source = pure ([], before) := by
  unfold exportsWith
  rw [if_pos (List.contains_iff_mem.mpr seen)]

theorem settles_exportsWith (new : source.path ∉ before)
    (settles : Task.Settles tree (FromTree tree root)
      (exportsAmong (exportsWith fuel) source (source.path :: before) source.reExports)
      (.ok (more, after))) :
    Task.Settles tree (FromTree tree root) (exportsWith (fuel + 1) before source)
      (.ok (source.exports.map (fun entry => ⟨entry.1, entry.2, source⟩) ++ more, after)) := by
  unfold exportsWith
  rw [if_neg (mt List.contains_iff_mem.mp new)]
  exact settles.bind (Task.settles_pure _)

end Steps

/-- Each list enters a file that was not seen before, so the lists inside of it leave fewer unseen.
-/
theorem listsEnd (room : Nat) : ListsEnd tree root room := by
  induction room using Nat.strongRecOn with
  | ind room ih =>
    intro before source stands followable enough
    by_cases seen : source.path ∈ before
    · refine ⟨[], before, listed_of_seen seen, fun fuel more => ?_⟩
      obtain ⟨fuel, rfl⟩ := Nat.exists_eq_succ_of_ne_zero (Nat.ne_zero_of_lt more)
      rw [exportsWith_of_seen seen]
      exact Task.settles_pure _
    · have less := remaining_cons_lt stands.canonical.mem_located seen
      obtain ⟨exports, _, after, among, _, _, settles⟩ :=
        (ih _ (less.trans_le enough)).among stands followable (List.Subset.refl _) (Nat.le_refl _)
      refine ⟨_, after, among.listed stands, fun fuel more => ?_⟩
      obtain ⟨fuel, rfl⟩ := Nat.exists_eq_succ_of_ne_zero (Nat.ne_zero_of_lt more)
      exact settles_exportsWith seen (settles fuel (by omega))

/-- The list of all exports of a module.  What the re-exports give that hand on all names is a part
of it, which does not depend on the other ones. -/
theorem exists_listed (stands : source.StandsIn tree)
    (followable : source.Followable tree root) :
    ∃ exports starred seen, Listed tree root [] source exports seen ∧ starred ⊆ exports ∧
      ListedAmong tree root [source.path] source (source.reExports.filter (IsStar ·)) starred seen ∧
      Task.Settles tree (FromTree tree root) (moduleExports source) (.ok exports) ∧
      ∀ fuel, walkBound tree < fuel →
        Task.Settles tree (FromTree tree root) (exportsWith fuel [] source)
          (.ok (exports, seen)) := by
  have places : remaining tree.located [] ≤ walkBound tree := by
    have card := tree.card_located_le
    rw [remaining_nil]
    unfold walkBound
    omega
  have fewer := (remaining_cons_lt stands.canonical.mem_located List.not_mem_nil).trans_le places
  obtain ⟨more, starred, seen, among, part, stars, settles⟩ :=
    (listsEnd _).among stands followable (List.Subset.refl _) (Nat.le_refl _)
  have settlesAll : ∀ fuel, walkBound tree < fuel →
      Task.Settles tree (FromTree tree root) (exportsWith fuel [] source)
        (.ok (source.exports.map (fun entry => ⟨entry.1, entry.2, source⟩) ++ more, seen)) := by
    intro fuel enough
    obtain ⟨fuel, rfl⟩ := Nat.exists_eq_succ_of_ne_zero (Nat.ne_zero_of_lt enough)
    exact settles_exportsWith List.not_mem_nil (settles fuel (by omega))
  refine ⟨_, starred, seen, among.listed stands,
    List.Subset.trans part (List.subset_append_right _ _), stars, ?_, settlesAll⟩
  exact (settles_sizeBound tree root).bind
    ((settlesAll _ (Nat.lt_succ_self _)).bind (Task.settles_pure _))

/-! ## Lists and searches -/

/-- The way along `export *` keeps the name, and every module on it has been entered. -/
theorem Listed.along
    {source other : SourceModule} {exports : List Export} {after : List Path} {name : String}
    (listed : Listed tree root [] source exports after) (provides : Provides tree root other name)
    (stands : other.StandsIn tree) (seen : other.path ∈ after) (notDefault : name ≠ "default") :
    name ∈ exportNames exports := by
  induction provides with
  | @own other name member =>
    have entered := (listed.entered other.path seen).resolve_left List.not_mem_nil
    exact (entered other stands rfl).2 name notDefault (.inl member)
  | @handed other target entry name imported member handed leads provides ih =>
    have entered := (listed.entered other.path seen).resolve_left List.not_mem_nil
    obtain ⟨onward, offered⟩ := entered other stands rfl
    rcases star_or_named handed with ⟨star, _, rfl⟩ | ⟨names, clause, pairMember⟩
    · exact ih leads.standsIn (onward entry member star target leads) notDefault
    · exact offered name notDefault
        (.inr ⟨entry, member, names, imported, target, clause, pairMember, leads, provides⟩)

/-- A list that begins with no module seen has exactly the names that the module provides. -/
theorem Listed.mem_iff {exports : List Export} {after : List Path}
    (listed : Listed tree root [] source exports after) (stands : source.StandsIn tree)
    (once : GivesNamesOnce tree root source) (name : String) :
    name ∈ exportNames exports ↔ Provides tree root source name := by
  refine ⟨fun member => ?_, fun provides => ?_⟩
  · obtain ⟨item, itemMember, rfl⟩ := List.mem_map.mp member
    exact (listed.sound item itemMember).provides once
  by_cases isDefault : name = "default"
  · subst isDefault
    obtain ⟨item, member, same, _⟩ :=
      listed.offered List.not_mem_nil _ provides.offers_default
    exact same ▸ List.mem_map_of_mem member
  · exact listed.along provides stands listed.seen isDefault

/-- Listing the exports of a module comes to an end, and the names are those that the module
provides.  With more fuel than the file tree calls for the list is the same. -/
theorem settles_moduleExports (stands : source.StandsIn tree)
    (followable : source.Followable tree root) (once : GivesNamesOnce tree root source) :
    ∃ exports seen,
      Task.Settles tree (FromTree tree root) (moduleExports source) (.ok exports) ∧
      (∀ fuel, walkBound tree < fuel →
        Task.Settles tree (FromTree tree root) (exportsWith fuel [] source) (.ok (exports, seen))) ∧
      ∀ name, name ∈ exportNames exports ↔ Provides tree root source name := by
  obtain ⟨exports, _, seen, listed, _, _, settles, settlesSoon⟩ := exists_listed stands followable
  exact ⟨exports, seen, settles, settlesSoon, listed.mem_iff stands once⟩

/-- In every session that reads from the file tree, the list of all exports of a module and the
search for any name come to an end, whatever circles the re-exports lead in, and the list has the
name exactly when the search finds declarations.  That more fuel changes nothing shows that the fuel
cuts neither off. -/
theorem moduleExports_agree_findExport (source : SourceModule) (stands : source.StandsIn tree)
    (followable : source.Followable tree root) (once : GivesNamesOnce tree root source) :
    ∃ exports seen,
      Task.Settles tree (FromTree tree root) (moduleExports source) (.ok exports) ∧
      (∀ fuel, walkBound tree < fuel →
        Task.Settles tree (FromTree tree root) (exportsWith fuel [] source) (.ok (exports, seen))) ∧
      ∀ name, ∃ found asked,
        Task.Settles tree (FromTree tree root) (findExport source name) (.ok found) ∧
        (∀ fuel, walkBound tree * walkBound tree < fuel →
          Task.Settles tree (FromTree tree root) (findWith fuel [] source name)
            (.ok (found, asked))) ∧
        (name ∈ exports.map Export.name ↔ found.isSome) := by
  obtain ⟨exports, seen, settles, endsSoon, listed⟩ := settles_moduleExports stands followable once
  refine ⟨exports, seen, settles, endsSoon, fun name => ?_⟩
  obtain ⟨found, asked, finds, findsSoon, provides, _⟩ :=
    settles_findExport stands followable name
  exact ⟨found, asked, finds, findsSoon, (listed name).trans provides.symm⟩

/-! ## Modules whose re-exports lead to each other -/

/-- Whether each re-export of a module leads to one of some modules. -/
def allLeadInto (tree : FileTree) (modules : List SourceModule) (source : SourceModule) : Bool :=
  source.reExports.all fun entry => modules.any fun target =>
    decide (((load entry.specifier source).outcomeFrom tree (fresh (.ofRoot []))).map
      (Option.map SourceModule.path) = .ok (some target.path))

/-- A re-export leads to the module that stands where loading comes to. -/
theorem leads_of_path {source target : SourceModule}
    (stands : target.StandsIn tree)
    (loads : ((load entry.specifier source).outcomeFrom tree (fresh (.ofRoot []))).map
      (Option.map SourceModule.path) = .ok (some target.path)) :
    source.Leads tree (.ofRoot []) entry target := by
  obtain ⟨found, after, ran, same⟩ := Task.exists_of_outcomeFrom loads
  obtain ⟨other, rfl, path⟩ := Option.map_eq_some_iff.mp same
  have leads : source.Leads tree (.ofRoot []) entry other := by
    unfold SourceModule.Leads Task.outcomeFrom
    rw [ran]
  rwa [leads.standsIn.unique stands path] at leads

/-- Modules of a file tree whose re-exports lead to each other. -/
structure LeadingTable (tree : FileTree) (modules : List SourceModule) : Prop where
  leads : ∀ source ∈ modules, allLeadInto tree modules source = true
  stands : ∀ source ∈ modules, source.StandsIn tree

namespace LeadingTable

variable {tree : FileTree} {modules : List SourceModule} {source other : SourceModule}
  {entry : ReExport}

variable (leading : LeadingTable tree modules) (member : source ∈ modules)

include leading member

theorem exists_leads (entryMember : entry ∈ source.reExports) :
    ∃ target ∈ modules, source.Leads tree (.ofRoot []) entry target := by
  have some := List.all_eq_true.mp (leading.leads source member) entry entryMember
  obtain ⟨target, targetMember, loads⟩ := List.any_eq_true.mp some
  exact ⟨target, targetMember,
    leads_of_path (leading.stands target targetMember) (of_decide_eq_true loads)⟩

/-- Re-exports lead to no other modules. -/
theorem reached
    (reaches : Relation.ReflTransGen (SourceModule.HandsOnFrom tree (.ofRoot [])) source other) :
    other ∈ modules := by
  induction reaches with
  | refl => exact member
  | tail _ step ih =>
    obtain ⟨entry, entryMember, leads⟩ := step
    obtain ⟨target, targetMember, same⟩ := leading.exists_leads ih entryMember
    cases same.unique leads
    exact targetMember

theorem followable :
    source.Followable tree (.ofRoot []) := by
  intro other reaches entry entryMember
  obtain ⟨target, _, leads⟩ := leading.exists_leads (leading.reached member reaches) entryMember
  exact ⟨some target, leads⟩

theorem givesNamesOnce (each : ∀ other ∈ modules, ∀ entry ∈ other.reExports,
      ((entry.names.getD []).map Prod.fst).Nodup) :
    GivesNamesOnce tree (.ofRoot []) source := by
  intro other reaches entry entryMember names listed
  have once := each other (leading.reached member reaches) entry entryMember
  rwa [listed] at once

end LeadingTable

/-! ## Two files that hand on each other's exports -/

/-- A statement that exports everything from a specifier. -/
def starStatement (specifier : String) : Node :=
  .mk "export_statement" true none 0 1 "" [
    .mk "*" false none 0 1 "*" [],
    .mk "string" true (some "source") 0 1 ("'" ++ specifier ++ "'") []]

/-- A statement that exports one name from a specifier under another name. -/
def renamingStatement (name newName specifier : String) : Node :=
  .mk "export_statement" true none 0 1 "" [
    .mk "export_clause" true none 0 1 "" [
      .mk "export_specifier" true none 0 1 "" [
        .mk "identifier" true (some "name") 0 1 name [],
        .mk "identifier" true (some "alias") 0 1 newName []]],
    .mk "string" true (some "source") 0 1 ("'" ++ specifier ++ "'") []]

/-- A statement that exports a type that it declares. -/
def typeStatement (name : String) : Node :=
  .mk "export_statement" true none 0 1 "" [
    .mk "type_alias_declaration" true (some "declaration") 0 1 "" [
      .mk "type_identifier" true (some "name") 0 1 name []]]

/-- The syntax tree of a file with some statements. -/
def program (statements : List Node) : Node := .mk "program" true none 0 1 "" statements

/-- The file that hands on all exports of the other one, and one of them once more. -/
def circleFirst : Node := program [starStatement "./b", renamingStatement "Word" "Term" "./b"]

/-- The file that declares a type and hands on all exports of the first one. -/
def circleSecond : Node := program [starStatement "./a", typeStatement "Word"]

/-- A file tree with the two files. -/
def circleTree : FileTree :=
  ⟨.directory [("a.ts", .file .empty (some circleFirst)),
    ("b.ts", .file .empty (some circleSecond))], []⟩

/-- The modules of the two files. -/
def firstModule : SourceModule := .ofTree (.ofRoot ["a.ts"]) .plain circleFirst

@[inherit_doc firstModule]
def secondModule : SourceModule := .ofTree (.ofRoot ["b.ts"]) .plain circleSecond

theorem standsIn_firstModule : firstModule.StandsIn circleTree :=
  ⟨⟨["a.ts"], _, rfl, rfl, rfl, by decide⟩, rfl⟩

theorem standsIn_secondModule : secondModule.StandsIn circleTree :=
  ⟨⟨["b.ts"], _, rfl, rfl, rfl, by decide⟩, rfl⟩

/-- Two files lead to each other. -/
theorem leadingTable_circle :
    LeadingTable circleTree [firstModule, secondModule] where
  leads := by decide +kernel
  stands := by
    rintro source (_ | ⟨_, _ | ⟨_, ⟨⟩⟩⟩)
    exacts [standsIn_firstModule, standsIn_secondModule]

theorem followable_firstModule : firstModule.Followable circleTree (.ofRoot []) :=
  leadingTable_circle.followable (.head _)

theorem givesNamesOnce_firstModule : GivesNamesOnce circleTree (.ofRoot []) firstModule :=
  leadingTable_circle.givesNamesOnce (.head _) (by decide +kernel)

/-- The new name of the type is listed, and it is found. -/
theorem circle_agrees :
    ∃ exports, Task.Settles circleTree (FromTree circleTree (.ofRoot []))
        (moduleExports firstModule) (.ok exports) ∧
      "Term" ∈ exports.map Export.name ∧ "Phrase" ∉ exports.map Export.name := by
  obtain ⟨exports, _, settles, _, agree⟩ := moduleExports_agree_findExport firstModule
    standsIn_firstModule followable_firstModule givesNamesOnce_firstModule
  have finds : ∀ name, ((findExport firstModule name).outcomeFrom circleTree
      (fresh (.ofRoot []))).map Option.isSome = .ok (name == "Term") →
      (name ∈ exports.map Export.name ↔ name = "Term") := by
    intro name answers
    obtain ⟨found, _, finds, _, listed⟩ := agree name
    rw [finds.outcomeFrom_eq fromTree_fresh] at answers
    rw [listed, Except.ok.inj answers, beq_iff_eq]
  refine ⟨exports, settles, (finds "Term" (by decide +kernel)).mpr rfl, ?_⟩
  exact fun member => absurd ((finds "Phrase" (by decide +kernel)).mp member) (by decide)

end Types
end ModuleAtlas
