import ModuleAtlas.Proofs.Source.Reordered
import ModuleAtlas.Proofs.Types.ExportListing

/-!
# The order of exports

The exports of a module are gathered in four turns: first what export statements declare, then the
declarations that clauses name, then what export statements with a source hand on, and last the
imports that clauses name.  Within a turn the order is that of the source.  So exports are listed in
source order exactly when no export is of an earlier turn than one that is introduced before it.
-/

namespace ModuleAtlas

/-! ## Turns -/

section Turns

variable {α β : Type}

/-- The items of a list that have their turn at some point. -/
def ofTurn (turn : α → Fin 4) (point : Fin 4) (items : List α) : List α :=
  items.filter fun item => turn item == point

/-- The items of a list turn by turn.  Within a turn they keep their order. -/
def inTurns (turn : α → Fin 4) (items : List α) : List α :=
  (List.finRange 4).flatMap fun point => ofTurn turn point items

theorem inTurns_eq (turn : α → Fin 4) (items : List α) :
    inTurns turn items =
      ofTurn turn 0 items ++ (ofTurn turn 1 items ++ (ofTurn turn 2 items ++
        ofTurn turn 3 items)) := by
  simp [inTurns, List.finRange_succ]

theorem mem_ofTurn {turn : α → Fin 4} {point : Fin 4} {items : List α} {item : α} :
    item ∈ ofTurn turn point items ↔ item ∈ items ∧ turn item = point := by
  rw [ofTurn, List.mem_filter, beq_iff_eq]

theorem ofTurn_append (turn : α → Fin 4) (point : Fin 4) (first second : List α) :
    ofTurn turn point (first ++ second) = ofTurn turn point first ++ ofTurn turn point second :=
  List.filter_append first second

theorem inTurns_filter (turn : α → Fin 4) (keep : α → Bool) (items : List α) :
    inTurns turn (items.filter keep) = (inTurns turn items).filter keep := by
  unfold inTurns ofTurn
  rw [List.filter_flatMap]
  simp only [List.filter_filter, Bool.and_comm]

theorem mem_inTurns {turn : α → Fin 4} {items : List α} {item : α} :
    item ∈ inTurns turn items ↔ item ∈ items := by
  simp only [inTurns, List.mem_flatMap, mem_ofTurn]
  exact ⟨fun ⟨_, _, member, _⟩ => member, fun member => ⟨_, List.mem_finRange _, member, rfl⟩⟩

theorem ofTurn_cons (turn : α → Fin 4) (point : Fin 4) (item : α) (rest : List α) :
    ofTurn turn point (item :: rest) =
      if turn item = point then item :: ofTurn turn point rest else ofTurn turn point rest := by
  simp only [ofTurn, List.filter_cons, beq_iff_eq]

theorem pairwise_inTurns (turn : α → Fin 4) (items : List α) :
    (inTurns turn items).Pairwise fun first second => turn first ≤ turn second := by
  refine List.pairwise_flatMap.mpr ⟨fun point _ => List.pairwise_of_forall_mem_list ?_, ?_⟩
  · intro first firstMember second secondMember
    exact Fin.le_of_eq ((mem_ofTurn.mp firstMember).2.trans (mem_ofTurn.mp secondMember).2.symm)
  · refine (List.pairwise_lt_finRange 4).imp fun before first firstMember second secondMember => ?_
    rw [(mem_ofTurn.mp firstMember).2, (mem_ofTurn.mp secondMember).2]
    exact Fin.le_of_lt before

/-- Taking turns changes nothing exactly when the turns never go back. -/
theorem inTurns_eq_self_iff {turn : α → Fin 4} {items : List α} :
    inTurns turn items = items ↔
      items.Pairwise fun first second => turn first ≤ turn second := by
  constructor
  · intro same
    rw [← same]
    exact pairwise_inTurns turn items
  · intro ordered
    induction items with
    | nil => rfl
    | cons item rest ih =>
      obtain ⟨below, restOrdered⟩ := List.pairwise_cons.mp ordered
      -- Nothing that comes later has an earlier turn.
      have none : ∀ point < turn item, ofTurn turn point rest = [] := by
        intro point early
        refine List.filter_eq_nil_iff.mpr fun other member isOfTurn => ?_
        rw [← eq_of_beq isOfTurn] at early
        exact absurd early (Fin.not_lt.mpr (below other member))
      have onward := ih restOrdered
      rw [inTurns_eq] at onward ⊢
      simp only [ofTurn_cons]
      generalize turn item = point at none ⊢
      obtain rfl | rfl | rfl | rfl : point = 0 ∨ point = 1 ∨ point = 2 ∨ point = 3 := by omega
      · simpa using onward
      · rw [none 0 (by decide)] at onward ⊢
        simpa using onward
      · rw [none 0 (by decide), none 1 (by decide)] at onward ⊢
        simpa using onward
      · rw [none 0 (by decide), none 1 (by decide), none 2 (by decide)] at onward ⊢
        simpa using onward

end Turns

namespace SourceModule

/-! ## What export statements introduce -/

/-- What an export statement introduces: an export that it declares, a declaration or an import that
a clause or a default export names, or a re-export. -/
inductive Introduction where
  | declared (name : String) (declaration : Declaration)
  | named (name : String) (declaration : Declaration)
  | handedOn (entry : ReExport)
  | imported (entry : ReExport)

namespace Introduction

/-- The turn in which an export is listed. -/
def turn : Introduction → Fin 4
  | declared _ _ => 0
  | named _ _ => 1
  | handedOn _ => 2
  | imported _ => 3

/-- The export of the module itself. -/
def own? : Introduction → Option (String × Declaration)
  | declared name declaration | named name declaration => some (name, declaration)
  | handedOn _ | imported _ => none

/-- The re-export. -/
def reExport? : Introduction → Option ReExport
  | declared _ _ | named _ _ => none
  | handedOn entry | imported entry => some entry

theorem turn_of_own? {introduction : Introduction} {pair : String × Declaration}
    (isOwn : introduction.own? = some pair) : introduction.turn = 0 ∨ introduction.turn = 1 := by
  cases introduction with
  | declared => exact .inl rfl
  | named => exact .inr rfl
  | handedOn => cases isOwn
  | imported => cases isOwn

theorem turn_of_reExport? {introduction : Introduction} {entry : ReExport}
    (isEntry : introduction.reExport? = some entry) :
    introduction.turn = 2 ∨ introduction.turn = 3 := by
  cases introduction with
  | declared => cases isEntry
  | named => cases isEntry
  | handedOn => exact .inl rfl
  | imported => exact .inr rfl

/-- Exports of the module itself have the first two turns. -/
theorem filterMap_own? (items : List Introduction) :
    (inTurns turn items).filterMap own? =
      (ofTurn turn 0 items).filterMap own? ++ (ofTurn turn 1 items).filterMap own? := by
  have none : ∀ point, point = 2 ∨ point = 3 → (ofTurn turn point items).filterMap own? = [] := by
    refine fun point late => List.filterMap_eq_nil_iff.mpr fun introduction member => ?_
    by_contra isOwn
    obtain ⟨pair, isOwn⟩ := Option.ne_none_iff_exists'.mp isOwn
    have early := turn_of_own? isOwn
    rw [(mem_ofTurn.mp member).2] at early
    omega
  simp only [inTurns_eq, List.filterMap_append, none 2 (.inl rfl), none 3 (.inr rfl),
    List.append_nil]

/-- Re-exports have the last two turns. -/
theorem filterMap_reExport? (items : List Introduction) :
    (inTurns turn items).filterMap reExport? =
      (ofTurn turn 2 items).filterMap reExport? ++ (ofTurn turn 3 items).filterMap reExport? := by
  have none : ∀ point, point = 0 ∨ point = 1 →
      (ofTurn turn point items).filterMap reExport? = [] := by
    refine fun point early => List.filterMap_eq_nil_iff.mpr fun introduction member => ?_
    by_contra isEntry
    obtain ⟨entry, isEntry⟩ := Option.ne_none_iff_exists'.mp isEntry
    have late := turn_of_reExport? isEntry
    rw [(mem_ofTurn.mp member).2] at late
    omega
  simp only [inTurns_eq, List.filterMap_append, none 0 (.inl rfl), none 1 (.inr rfl),
    List.nil_append]

end Introduction

section Introductions

variable {source : SourceModule} {path : Path} {language : Language} {root : Node}

/-- What a name comes to that a clause or a default export names. -/
def introducedBy (source : SourceModule) (names : String × String) : List Introduction :=
  (source.settled names).exports.map (fun pair => .named pair.1 pair.2) ++
    (source.settled names).reExports.map .imported

/-- What a statement introduces, in the order in which it is written. -/
def introduced (source : SourceModule) (statement : Node) : List Introduction :=
  let added := Contribution.ofStatement statement
  added.exports.map (fun pair => .declared pair.1 pair.2) ++
    (added.reExports.map .handedOn ++ added.pending.flatMap source.introducedBy)

/-- What the statements of a file introduce, in source order. -/
def introductions (source : SourceModule) : List Introduction :=
  source.root.namedChildren.flatMap source.introduced

/-- What the statements of a file introduce of its own exports, in source order. -/
def ownIntroductions (source : SourceModule) : List Introduction :=
  source.introductions.filter fun introduction => introduction.own?.isSome

theorem filterMap_ownIntroductions (source : SourceModule) :
    (inTurns Introduction.turn source.ownIntroductions).filterMap Introduction.own? =
      (inTurns Introduction.turn source.introductions).filterMap Introduction.own? := by
  rw [ownIntroductions, inTurns_filter, List.filterMap_filter]
  congr 1
  funext introduction
  cases introduction.own? <;> rfl

/-- What statements introduce that has its turn at some point. -/
theorem ofTurn_introductions (source : SourceModule) (point : Fin 4) :
    ofTurn Introduction.turn point source.introductions =
      source.root.namedChildren.flatMap fun statement =>
        ofTurn Introduction.turn point (source.introduced statement) :=
  List.filter_flatMap

theorem ofTurn_introduced (source : SourceModule) (statement : Node) :
    let added := Contribution.ofStatement statement
    ofTurn Introduction.turn 0 (source.introduced statement) =
      added.exports.map (fun pair => .declared pair.1 pair.2) ∧
    ofTurn Introduction.turn 1 (source.introduced statement) =
      added.pending.flatMap (fun names =>
        (source.settled names).exports.map fun pair => .named pair.1 pair.2) ∧
    ofTurn Introduction.turn 2 (source.introduced statement) = added.reExports.map .handedOn ∧
    ofTurn Introduction.turn 3 (source.introduced statement) =
      added.pending.flatMap (fun names => (source.settled names).reExports.map .imported) := by
  simp [ofTurn, introduced, introducedBy, List.filter_map, List.filter_flatMap, Function.comp_def,
    Introduction.turn]

/-- What statements introduce has its turn. -/
theorem filterMap_inTurns {α : Type} (source : SourceModule) (part : Introduction → Option α) :
    (inTurns Introduction.turn source.introductions).filterMap part =
      let added := Contribution.ofStatements source.root.namedChildren
      added.exports.filterMap (fun pair => part (.declared pair.1 pair.2)) ++
        (added.pending.flatMap (fun names => (source.settled names).exports.filterMap fun pair =>
            part (.named pair.1 pair.2)) ++
          (added.reExports.filterMap (fun entry => part (.handedOn entry)) ++
            added.pending.flatMap fun names => (source.settled names).reExports.filterMap
              fun entry => part (.imported entry))) := by
  simp only [inTurns_eq, ofTurn_introductions, (ofTurn_introduced source _).1,
    (ofTurn_introduced source _).2.1, (ofTurn_introduced source _).2.2.1,
    (ofTurn_introduced source _).2.2.2, List.filterMap_append, List.filterMap_flatMap,
    List.filterMap_map, Contribution.ofStatements, List.flatMap_assoc, Function.comp_def]

/-- A file exports by itself what its statements introduce, turn by turn, and so it re-exports. -/
theorem exports_eq_inTurns (path : Path) (language : Language) (root : Node) :
    let source := ofTree path language root
    source.exports = (inTurns Introduction.turn source.introductions).filterMap
        Introduction.own? ∧
      source.reExports = (inTurns Introduction.turn source.introductions).filterMap
        Introduction.reExport? := by
  dsimp only
  rw [filterMap_inTurns, filterMap_inTurns, ofTree_root]
  constructor
  · simp [exports_ofTree, Introduction.own?]
  · simp [reExports_ofTree, Introduction.reExport?]

/-- Introductions are of a module when their re-exports are re-exports of the module, and by name
where a clause names an import. -/
def AreOf (source : SourceModule) (items : List Introduction) : Prop :=
  ∀ introduction ∈ items, ∀ entry, introduction.reExport? = some entry →
    entry ∈ source.reExports ∧ (introduction.turn = 3 → entry.names.isSome)

theorem AreOf.tail {introduction : Introduction} {rest : List Introduction}
    (areOf : source.AreOf (introduction :: rest)) : source.AreOf rest :=
  fun other member => areOf other (List.mem_cons_of_mem _ member)

theorem isSome_names_of_imported {entry : ReExport}
    (member : .imported entry ∈ source.introductions) : entry.names.isSome := by
  obtain ⟨statement, _, introduced⟩ := List.mem_flatMap.mp member
  have settled : ∃ names, entry ∈ (source.settled names).reExports := by
    simp only [SourceModule.introduced, introducedBy, List.mem_append, List.mem_map,
      List.mem_flatMap] at introduced
    grind
  obtain ⟨names, added⟩ := settled
  unfold SourceModule.settled at added
  dsimp only at added
  split at added
  · obtain ⟨binding, _, rfl⟩ := List.mem_map.mp added
    rfl
  · cases added

theorem areOf_introductions (path : Path) (language : Language) (root : Node) :
    (ofTree path language root).AreOf (ofTree path language root).introductions := by
  intro introduction member entry isEntry
  constructor
  · rw [(exports_eq_inTurns path language root).2]
    exact List.mem_filterMap.mpr ⟨introduction, mem_inTurns.mpr member, isEntry⟩
  · intro last
    cases introduction with
    | imported other =>
      cases isEntry
      exact isSome_names_of_imported member
    | declared => cases last
    | named => cases last
    | handedOn => cases last

theorem StandsIn.introductions {tree : FileTree} (stands : source.StandsIn tree) :
    source.AreOf source.introductions ∧
      source.exports = (inTurns Introduction.turn source.introductions).filterMap
        Introduction.own? ∧
      source.reExports = (inTurns Introduction.turn source.introductions).filterMap
        Introduction.reExport? := by
  obtain ⟨language, parsed, known, _⟩ := stands.eq_ofTree
  rw [known]
  exact ⟨areOf_introductions _ language parsed, exports_eq_inTurns _ language parsed⟩

end Introductions

end SourceModule

namespace Types

open Session SourceModule

variable {tree : FileTree} {root : Path} {source target : SourceModule}

/-! ## What introductions give -/

/-- The list of all exports of a module when some modules are seen, and the modules that are seen
after it. -/
def Lists (tree : FileTree) (root : Path) (before : List Path) (source : SourceModule)
    (exports : List Export) (after : List Path) : Prop :=
  ∀ fuel, remaining tree.located before < fuel →
    Task.Settles tree (FromTree tree root) (exportsWith fuel before source) (.ok (exports, after))

/-- What has been found behind a name, exported under a name. -/
def exportsAs (name : String) : Option Found → List Export
  | some (declarations, source) => declarations.map fun declaration => ⟨name, declaration, source⟩
  | none => []

/-- What named items hand on, item by item. -/
inductive ListsNamed (tree : FileTree) (root : Path) (target : SourceModule) :
    List (String × String) → List Export → Prop where
  | nil : ListsNamed tree root target [] []
  | cons {exported imported : String} {rest : List (String × String)} {found : Option Found}
      {exports : List Export}
      (finds : Task.Settles tree (FromTree tree root) (findExport target imported) (.ok found))
      (others : ListsNamed tree root target rest exports) :
      ListsNamed tree root target ((exported, imported) :: rest)
        (exportsAs exported found ++ exports)

/-- What a re-export of a module contributes when some modules are seen, and the modules that are
seen after it.  With all names come the exports of the other module, the default export and those
apart that the module has itself. -/
inductive Contributes (tree : FileTree) (root : Path) (source : SourceModule) (seen : List Path)
    (entry : ReExport) : List Export → List Path → Prop where
  | nowhere (nowhere : ∀ target, ¬source.Leads tree root entry target) :
      Contributes tree root source seen entry [] seen
  | whole (nameSpace : entry.nameSpace.isSome) : Contributes tree root source seen entry [] seen
  | star {target : SourceModule} {exports : List Export} {after : List Path}
      (star : IsStar entry)
      (leads : source.Leads tree root entry target)
      (lists : Lists tree root seen target exports after) :
      Contributes tree root source seen entry
        (exports.filter fun found =>
          found.name != "default" && !(source.exports.map (·.1)).contains found.name) after
  | clause {target : SourceModule} {names : List (String × String)} {exports : List Export}
      (listed : entry.names = some names)
      (plain : entry.nameSpace = none)
      (leads : source.Leads tree root entry target)
      (named : ListsNamed tree root target names exports) :
      Contributes tree root source seen entry exports seen

/-- Exports with what introduces them, in the order in which they are introduced: own exports stand
for themselves, and re-exports for what they contribute. -/
inductive Introduces (tree : FileTree) (root : Path) (source : SourceModule) :
    List Path → List Introduction → List (Introduction × Export) → List Path → Prop where
  | nil (seen : List Path) : Introduces tree root source seen [] [] seen
  | own {introduction : Introduction} {pair : String × Declaration} {rest : List Introduction}
      {entries : List (Introduction × Export)} {seen after : List Path}
      (isOwn : introduction.own? = some pair)
      (others : Introduces tree root source seen rest entries after) :
      Introduces tree root source seen (introduction :: rest)
        ((introduction, ⟨pair.1, pair.2, source⟩) :: entries) after
  | handedOn {introduction : Introduction} {entry : ReExport} {rest : List Introduction}
      {exports : List Export} {entries : List (Introduction × Export)}
      {seen middle after : List Path}
      (isEntry : introduction.reExport? = some entry)
      (contributes : Contributes tree root source seen entry exports middle)
      (others : Introduces tree root source middle rest entries after) :
      Introduces tree root source seen (introduction :: rest)
        (exports.map (fun found => (introduction, found)) ++ entries) after

theorem exists_lists (stands : source.StandsIn tree) (followable : source.Followable tree root)
    (before : List Path) :
    ∃ exports after, Lists tree root before source exports after ∧ before ⊆ after := by
  obtain ⟨exports, after, listed, settles⟩ :=
    listsEnd _ before source stands followable (Nat.le_refl _)
  exact ⟨exports, after, settles, listed.grows⟩

theorem Lists.unique {before after others : List Path} {exports more : List Export}
    (first : Lists tree root before source exports after)
    (second : Lists tree root before source more others) :
    exports = more ∧ after = others := by
  have same := (first _ (Nat.lt_succ_self _)).unique (second _ (Nat.lt_succ_self _)) fromTree_fresh
  exact Prod.mk.inj (Except.ok.inj same)

theorem exists_listsNamed (stands : target.StandsIn tree) (followable : target.Followable tree root)
    (names : List (String × String)) :
    ∃ exports, ListsNamed tree root target names exports := by
  induction names with
  | nil => exact ⟨[], .nil⟩
  | cons pair rest ih =>
    obtain ⟨exports, others⟩ := ih
    obtain ⟨found, _, finds, _⟩ := settles_findExport stands followable pair.2
    exact ⟨_, .cons finds others⟩

theorem ListsNamed.settles {names : List (String × String)} {exports : List Export}
    (named : ListsNamed tree root target names exports) :
    Task.Settles tree (FromTree tree root) (namedExports target names) (.ok exports) := by
  induction named with
  | nil => exact Task.settles_pure _
  | @cons exported imported rest found exports finds _ ih =>
    refine finds.bind ?_
    cases found with
    | none => exact ih.bind (Task.settles_pure _)
    | some found => exact ih.bind (Task.settles_pure _)

section Contributions

variable {entry : ReExport} {seen middle : List Path} {exports : List Export}

/-- Every re-export contributes something, be it nothing. -/
theorem exists_contributes (followable : source.Followable tree root)
    (member : entry ∈ source.reExports) (seen : List Path) :
    ∃ exports middle, Contributes tree root source seen entry exports middle := by
  obtain ⟨loaded, _, leadsTo⟩ := followable.settles_load member
  cases loaded with
  | none =>
    have nowhere : ∀ target, ¬source.Leads tree root entry target := by
      intro target leads
      cases (leadsTo target).mpr leads
    exact ⟨[], seen, .nowhere nowhere⟩
  | some target =>
    have leads := (leadsTo target).mp rfl
    have targetFollowable := followable.next member leads
    cases nameSpace : entry.nameSpace with
    | some name => exact ⟨[], seen, .whole (Option.isSome_of_eq_some nameSpace)⟩
    | none =>
      cases listed : entry.names with
      | none =>
        obtain ⟨exports, after, lists, _⟩ :=
          exists_lists leads.standsIn targetFollowable seen
        exact ⟨_, after, .star ⟨listed, nameSpace⟩ leads lists⟩
      | some names =>
        obtain ⟨exports, named⟩ := exists_listsNamed leads.standsIn targetFollowable names
        exact ⟨exports, seen, .clause listed nameSpace leads named⟩

variable (contributes : Contributes tree root source seen entry exports middle)

include contributes

theorem Contributes.grows (followable : source.Followable tree root)
    (member : entry ∈ source.reExports) : seen ⊆ middle := by
  cases contributes with
  | nowhere | whole | clause => exact List.Subset.refl _
  | star _ leads lists =>
    obtain ⟨_, _, others, grows⟩ :=
      exists_lists leads.standsIn (followable.next member leads) seen
    rwa [(lists.unique others).2]

/-- What is handed on by name does not depend on the modules seen. -/
theorem Contributes.of_names (named : entry.names.isSome) :
    middle = seen ∧ ∀ others, Contributes tree root source others entry exports others := by
  cases contributes with
  | nowhere nowhere => exact ⟨rfl, fun _ => .nowhere nowhere⟩
  | whole nameSpace => exact ⟨rfl, fun _ => .whole nameSpace⟩
  | star star _ _ =>
    rw [star.1] at named
    cases named
  | clause listed plain leads items => exact ⟨rfl, fun _ => .clause listed plain leads items⟩

/-- A list of re-exports begins with what the first of them contributes. -/
theorem Contributes.settles_cons {fuel : Nat} {rest : List ReExport} {more : List Export}
    {after : List Path}
    (followable : source.Followable tree root) (member : entry ∈ source.reExports)
    (enough : remaining tree.located seen < fuel)
    (settles : Task.Settles tree (FromTree tree root)
      (exportsAmong (exportsWith fuel) source middle rest) (.ok (more, after))) :
    Task.Settles tree (FromTree tree root)
      (exportsAmong (exportsWith fuel) source seen (entry :: rest))
        (.ok (exports ++ more, after)) := by
  obtain ⟨loaded, loads, leadsTo⟩ := followable.settles_load member
  refine loads.bind ?_
  cases contributes with
  | nowhere nowhere =>
    cases loaded with
    | none => exact settles.bind (Task.settles_pure _)
    | some target => exact absurd ((leadsTo target).mp rfl) (nowhere target)
  | whole nameSpace =>
    obtain ⟨name, known⟩ := Option.isSome_iff_exists.mp nameSpace
    cases loaded with
    | none => exact settles.bind (Task.settles_pure _)
    | some target =>
      dsimp only
      rw [known]
      exact settles.bind (Task.settles_pure _)
  | star star leads lists =>
    obtain rfl := (leadsTo _).mpr leads
    dsimp only
    rw [star.1, star.2]
    exact (lists fuel enough).bind (settles.bind (Task.settles_pure _))
  | clause listed plain leads named =>
    obtain rfl := (leadsTo _).mpr leads
    dsimp only
    rw [listed, plain]
    exact named.settles.bind (settles.bind (Task.settles_pure _))

end Contributions

/-! ## The list -/

/-- The turn of an export is that of what introduces it. -/
def entryTurn (entry : Introduction × Export) : Fin 4 := entry.1.turn

/-- An export of the module itself. -/
def ownExport (source : SourceModule) (pair : String × Declaration) : Export :=
  ⟨pair.1, pair.2, source⟩

/-- The exports of one introduction come in its turn, before those of the later ones. -/
theorem map_ofTurn_append (introduction : Introduction) (point : Fin 4) (exports : List Export)
    (entries : List (Introduction × Export)) :
    (ofTurn entryTurn point ((exports.map fun found => (introduction, found)) ++ entries)).map
        Prod.snd =
      (if introduction.turn = point then exports else []) ++
        (ofTurn entryTurn point entries).map Prod.snd := by
  rw [ofTurn_append, List.map_append]
  unfold ofTurn
  rw [List.filter_map]
  split
  · rename_i same
    simp [Function.comp_def, entryTurn, same]
  · rename_i different
    simp [Function.comp_def, entryTurn, different]

section Introduced

variable {items : List Introduction} {entries : List (Introduction × Export)}
  {seen after others last : List Path} {fuel : Nat} {rest : List ReExport} {more : List Export}

/-- Every item of a module introduces a list of exports. -/
theorem exists_introduces (followable : source.Followable tree root)
    (areOf : source.AreOf items) (seen : List Path) :
    ∃ entries after, Introduces tree root source seen items entries after := by
  induction items generalizing seen with
  | nil => exact ⟨[], seen, .nil seen⟩
  | cons introduction rest ih =>
    have ofEntry : ∀ entry, introduction.reExport? = some entry →
        ∃ entries after,
          Introduces tree root source seen (introduction :: rest) entries after := by
      intro entry isEntry
      obtain ⟨_, middle, contributes⟩ := exists_contributes followable
        (areOf introduction List.mem_cons_self entry isEntry).1 seen
      obtain ⟨_, after, onward⟩ := ih areOf.tail middle
      exact ⟨_, after, .handedOn isEntry contributes onward⟩
    have ofOwn : ∀ pair, introduction.own? = some pair →
        ∃ entries after,
          Introduces tree root source seen (introduction :: rest) entries after := by
      intro pair isOwn
      obtain ⟨_, after, onward⟩ := ih areOf.tail seen
      exact ⟨_, after, .own isOwn onward⟩
    cases introduction with
    | declared name declaration => exact ofOwn _ rfl
    | named name declaration => exact ofOwn _ rfl
    | handedOn entry => exact ofEntry entry rfl
    | imported entry => exact ofEntry entry rfl

variable (introduces : Introduces tree root source seen items entries after)

include introduces

theorem Introduces.grows
    (followable : source.Followable tree root) (areOf : source.AreOf items) : seen ⊆ after := by
  induction introduces with
  | nil => exact List.Subset.refl _
  | own _ _ ih => exact ih areOf.tail
  | handedOn isEntry contributes _ ih =>
    have member := (areOf _ List.mem_cons_self _ isEntry).1
    exact List.Subset.trans (contributes.grows followable member) (ih areOf.tail)

/-- Own exports stand for themselves. -/
theorem Introduces.ofTurn_own {point : Fin 4} (early : point = 0 ∨ point = 1) :
    (ofTurn entryTurn point entries).map Prod.snd =
      ((ofTurn Introduction.turn point items).filterMap Introduction.own?).map
        (ownExport source) := by
  induction introduces with
  | nil => rfl
  | @own introduction pair _ _ _ _ isOwn _ ih =>
    rw [ofTurn_cons, ofTurn_cons, entryTurn]
    by_cases same : introduction.turn = point
    · simp only [same, if_true, List.map_cons, List.filterMap_cons_some isOwn,
        ih]
      rfl
    · simp only [same, if_false, ih]
  | @handedOn introduction _ _ _ _ _ _ _ isEntry _ _ ih =>
    have different : introduction.turn ≠ point := by
      have late := Introduction.turn_of_reExport? isEntry
      omega
    rw [ofTurn_cons, if_neg different, ← ih, map_ofTurn_append, if_neg different, List.nil_append]

/-- What statements with a source hand on is listed in their order.  Of the other introductions none
enters a module. -/
theorem Introduces.settles_handedOn
    (followable : source.Followable tree root) (areOf : source.AreOf items)
    (enough : remaining tree.located seen < fuel)
    (settles : Task.Settles tree (FromTree tree root)
      (exportsAmong (exportsWith fuel) source after rest) (.ok (more, last))) :
    Task.Settles tree (FromTree tree root)
      (exportsAmong (exportsWith fuel) source seen
        ((ofTurn Introduction.turn 2 items).filterMap Introduction.reExport? ++ rest))
      (.ok ((ofTurn entryTurn 2 entries).map Prod.snd ++ more, last)) := by
  induction introduces with
  | nil => exact settles
  | @own introduction _ _ _ _ _ isOwn _ ih =>
    have different : introduction.turn ≠ 2 := by
      have early := Introduction.turn_of_own? isOwn
      omega
    rw [ofTurn_cons, ofTurn_cons, entryTurn, if_neg different, if_neg different]
    exact ih areOf.tail enough settles
  | @handedOn introduction entry _ exports _ seen middle _ isEntry contributes _
      ih =>
    obtain ⟨member, named⟩ := areOf introduction List.mem_cons_self entry isEntry
    have less : remaining tree.located middle ≤ remaining tree.located seen :=
      remaining_le_of_subset (contributes.grows followable member)
    have onward := ih areOf.tail (by omega) settles
    rw [ofTurn_cons, map_ofTurn_append]
    by_cases same : introduction.turn = 2
    · rw [if_pos same, if_pos same, List.filterMap_cons_some isEntry, List.append_assoc]
      exact contributes.settles_cons followable member enough onward
    · have last : introduction.turn = 3 := by
        have late := Introduction.turn_of_reExport? isEntry
        omega
      rw [if_neg same, if_neg same, List.nil_append]
      rwa [(contributes.of_names (named last)).1] at onward

/-- The imports that clauses name are listed in the order of the clauses, whatever modules are seen.
-/
theorem Introduces.settles_imported
    (followable : source.Followable tree root) (areOf : source.AreOf items)
    (enough : remaining tree.located others < fuel)
    (settles : Task.Settles tree (FromTree tree root)
      (exportsAmong (exportsWith fuel) source others rest) (.ok (more, last))) :
    Task.Settles tree (FromTree tree root)
      (exportsAmong (exportsWith fuel) source others
        ((ofTurn Introduction.turn 3 items).filterMap Introduction.reExport? ++ rest))
      (.ok ((ofTurn entryTurn 3 entries).map Prod.snd ++ more, last)) := by
  induction introduces with
  | nil => exact settles
  | @own introduction _ _ _ _ _ isOwn _ ih =>
    have different : introduction.turn ≠ 3 := by
      have early := Introduction.turn_of_own? isOwn
      omega
    rw [ofTurn_cons, ofTurn_cons, entryTurn, if_neg different, if_neg different]
    exact ih areOf.tail
  | @handedOn introduction entry _ exports _ seen middle _ isEntry contributes _
      ih =>
    obtain ⟨member, named⟩ := areOf introduction List.mem_cons_self entry isEntry
    have onward := ih areOf.tail
    rw [ofTurn_cons, map_ofTurn_append]
    by_cases same : introduction.turn = 3
    · rw [if_pos same, if_pos same, List.filterMap_cons_some isEntry, List.append_assoc]
      have named := (contributes.of_names (named same)).2 others
      exact named.settles_cons followable member enough onward
    · rw [if_neg same, if_neg same, List.nil_append]
      exact onward

end Introduced

/-- What introductions give is listed turn by turn. -/
theorem Introduces.lists {before after : List Path} {entries : List (Introduction × Export)}
    (introduces : Introduces tree root source (source.path :: before) source.introductions entries
      after)
    (stands : source.StandsIn tree) (followable : source.Followable tree root)
    (new : source.path ∉ before) :
    Lists tree root before source ((inTurns entryTurn entries).map Prod.snd) after := by
  obtain ⟨areOf, exports, reExports⟩ := stands.introductions
  intro fuel enough
  obtain ⟨fuel, rfl⟩ := Nat.exists_eq_succ_of_ne_zero (Nat.ne_zero_of_lt enough)
  have less := remaining_cons_lt stands.canonical.mem_located new
  have lessAfter : remaining tree.located after ≤ remaining tree.located (source.path :: before) :=
    remaining_le_of_subset (introduces.grows followable areOf)
  have imported : Task.Settles tree (FromTree tree root)
      (exportsAmong (exportsWith fuel) source after
        ((ofTurn Introduction.turn 3 source.introductions).filterMap Introduction.reExport? ++ []))
      (.ok ((ofTurn entryTurn 3 entries).map Prod.snd ++ [], after)) :=
    introduces.settles_imported followable areOf (by omega) (Task.settles_pure _)
  have among := introduces.settles_handedOn followable areOf (by omega) imported
  rw [List.append_nil, ← Introduction.filterMap_reExport?, ← reExports] at among
  have listed := settles_exportsWith new among
  rw [exports, Introduction.filterMap_own?] at listed
  have own : ownExport source = fun pair => ⟨pair.1, pair.2, source⟩ := rfl
  simpa [inTurns_eq, introduces.ofTurn_own, own] using listed

/-- The list of all exports of a module that begins with no module seen. -/
theorem Lists.settles_moduleExports {exports : List Export} {after : List Path}
    (lists : Lists tree root [] source exports after) (stands : source.StandsIn tree)
    (followable : source.Followable tree root) :
    Task.Settles tree (FromTree tree root) (moduleExports source) (.ok exports) := by
  obtain ⟨found, _, seen, _, _, _, settles, settlesSoon⟩ := exists_listed stands followable
  have first := lists (remaining tree.located [] + walkBound tree + 1) (by omega)
  have second := settlesSoon (remaining tree.located [] + walkBound tree + 1) (by omega)
  obtain ⟨rfl, rfl⟩ := Prod.mk.inj (Except.ok.inj (first.unique second fromTree_fresh))
  exact settles

/-- The exports of a module itself and the list of all its exports are in turns: what is declared,
the declarations that clauses name, what is handed on, and the imports that clauses name.  Whatever
modules are seen, every re-export is replaced by what it contributes, and within a turn the order is
that in which the statements introduce the exports.  So exports are in source order exactly when the
turns of what the source introduces never go back. -/
theorem exports_listed_in_turns (stands : source.StandsIn tree)
    (followable : source.Followable tree root) :
    source.exports =
      (inTurns Introduction.turn source.ownIntroductions).filterMap Introduction.own? ∧
    (inTurns Introduction.turn source.ownIntroductions = source.ownIntroductions ↔
      source.ownIntroductions.Pairwise fun first second => first.turn ≤ second.turn) ∧
    ∀ before, source.path ∉ before → ∃ entries after,
      Introduces tree root source (source.path :: before) source.introductions entries after ∧
      Lists tree root before source ((inTurns entryTurn entries).map Prod.snd) after ∧
      (before = [] → Task.Settles tree (FromTree tree root) (moduleExports source)
        (.ok ((inTurns entryTurn entries).map Prod.snd))) ∧
      (inTurns entryTurn entries = entries ↔
        entries.Pairwise fun first second => first.1.turn ≤ second.1.turn) := by
  obtain ⟨areOf, exports, _⟩ := stands.introductions
  refine ⟨exports.trans (filterMap_ownIntroductions source).symm, inTurns_eq_self_iff,
    fun before new => ?_⟩
  obtain ⟨entries, after, introduces⟩ := exists_introduces followable areOf (source.path :: before)
  have lists := introduces.lists stands followable new
  refine ⟨entries, after, introduces, lists, ?_, inTurns_eq_self_iff⟩
  rintro rfl
  exact lists.settles_moduleExports stands followable

/-! ## A file that is listed from its end -/

/-- A statement that declares a type. -/
def plainTypeStatement (name : String) : Node :=
  .mk "type_alias_declaration" true none 0 1 "" [
    .mk "type_identifier" true (some "name") 0 1 name []]

/-- The file that hands on all exports of another one, exports a type by a clause, and another type
where it declares it. -/
def mixedFile : Node :=
  program [starStatement "./side", clauseNode ["Clause"], plainTypeStatement "Clause",
    typeStatement "Direct"]

/-- The file that is handed on. -/
def sideFile : Node := program [typeStatement "Star"]

/-- A file tree with both files. -/
def mixedTree : FileTree :=
  ⟨.directory [("mixed.ts", .file .empty (some mixedFile)),
    ("side.ts", .file .empty (some sideFile))], []⟩

/-- The modules of the files. -/
def mixedModule : SourceModule := .ofTree (.ofRoot ["mixed.ts"]) .plain mixedFile

@[inherit_doc mixedModule]
def sideModule : SourceModule := .ofTree (.ofRoot ["side.ts"]) .plain sideFile

/-- The names of all exports of a module in the file tree. -/
def mixedNames (source : SourceModule) : Except Failure (List String) :=
  ((moduleExports source).outcomeFrom mixedTree (fresh (.ofRoot []))).map exportNames

theorem standsIn_mixedModule : mixedModule.StandsIn mixedTree :=
  ⟨⟨["mixed.ts"], _, rfl, rfl, rfl, by decide⟩, rfl⟩

theorem standsIn_sideModule : sideModule.StandsIn mixedTree :=
  ⟨⟨["side.ts"], _, rfl, rfl, rfl, by decide⟩, rfl⟩

theorem leadingTable_mixed : LeadingTable mixedTree [mixedModule, sideModule] where
  leads := by decide +kernel
  stands := by
    rintro source (_ | ⟨_, _ | ⟨_, ⟨⟩⟩⟩)
    exacts [standsIn_mixedModule, standsIn_sideModule]

theorem turns_mixedModule : mixedModule.ownIntroductions.map Introduction.turn = [1, 0] := rfl

/-- The own exports of the file are not in source order. -/
theorem mixed_listed_in_turns :
    inTurns Introduction.turn mixedModule.ownIntroductions ≠ mixedModule.ownIntroductions ∧
      ∃ entries after,
        Introduces mixedTree (.ofRoot []) mixedModule [mixedModule.path] mixedModule.introductions
          entries after ∧
        Task.Settles mixedTree (FromTree mixedTree (.ofRoot [])) (moduleExports mixedModule)
          (.ok ((inTurns entryTurn entries).map Prod.snd)) := by
  obtain ⟨_, ordered, listed⟩ := exports_listed_in_turns standsIn_mixedModule
    (leadingTable_mixed.followable (.head _))
  obtain ⟨entries, after, introduces, _, settles, _⟩ := listed [] List.not_mem_nil
  refine ⟨fun same => ?_, entries, after, introduces, settles rfl⟩
  have turns := List.pairwise_map.mpr (ordered.mp same)
  rw [turns_mixedModule] at turns
  exact absurd turns (by decide)

/-- The file introduces what it hands on first and what it declares last, and it is listed the other
way round. -/
theorem mixed_listed_from_end :
    mixedModule.introductions.map (fun introduction =>
        (introduction.reExport?, introduction.own?.map Prod.fst)) =
      [(some ⟨"./side", none, none⟩, none), (none, some "Clause"), (none, some "Direct")] ∧
    mixedNames sideModule = .ok ["Star"] ∧
    mixedModule.exports.map Prod.fst = ["Direct", "Clause"] ∧
    mixedNames mixedModule = .ok ["Direct", "Clause", "Star"] := by
  refine ⟨rfl, ?_, rfl, ?_⟩
  · decide +kernel
  · decide +kernel

end Types
end ModuleAtlas
