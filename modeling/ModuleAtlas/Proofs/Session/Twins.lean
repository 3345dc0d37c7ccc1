import ModuleAtlas.Proofs.Resolve.Agreement
import ModuleAtlas.Proofs.Types.Alike
import ModuleAtlas.Types.Structure

/-!
# Twin runs

Two sessions, one for each of two editions of a file tree, match along links when linked cells hold
what is alike.  A task is followed by another when, from matching sessions, whatever the one answers
the other answers as well, up to links, and where the one fails the other fails for the same reason.
The one touches no cell of its session but those that were linked and those that are new.  So what a
type comes to depends on the cells that can be reached from it and on nothing else that a session
holds; and when both editions are the same, on nothing but the history of the session.
-/

namespace ModuleAtlas

open ModuleAtlas.Types

/-- A file tree and another edition of its files. -/
structure Edition where
  revision : Revision
  tree : FileTree
  copy : FileTree
  root : Path

namespace Edition

/-- A file tree and nothing else. -/
abbrev same (tree : FileTree) (root : Path) : Edition := ⟨.same, tree, tree, root⟩

variable {edition : Edition}

/-- The key of a declaration in the other edition. -/
def moved (edition : Edition) (key : Path × Nat) : Path × Nat :=
  (key.1, edition.revision.move key.1 key.2)

theorem map_moved_same {tree : FileTree} {root : Path} (keys : List (Path × Nat)) :
    keys.map (same tree root).moved = keys :=
  List.map_id keys

/-- All that matters of another edition: the nodes of its files have moved without falling together,
their modules declare the same, and everything else that is asked of the file trees is the same. -/
structure Faithful (edition : Edition) : Prop where
  injective : ∀ path, Function.Injective (edition.revision.move path)
  agrees : edition.tree.Agrees edition.copy
  modules : ∀ canonical, Outcomes (SourceModule.Revised (edition.revision.inFile canonical))
    (Session.moduleAt edition.tree canonical) (Session.moduleAt edition.copy canonical)
  bound : Session.walkBound edition.tree = Session.walkBound edition.copy

theorem faithful_same (tree : FileTree) (root : Path) : (same tree root).Faithful where
  injective _ _ _ := id
  agrees := .refl tree
  modules canonical := (outcomes_eq rfl).mono <| by
    rintro source _ rfl
    exact source.revised_same canonical
  bound := rfl

theorem moved_injective (faithful : edition.Faithful) : Function.Injective edition.moved := by
  rintro ⟨path, start⟩ ⟨other, otherStart⟩ same
  obtain ⟨rfl, moved⟩ := Prod.mk.inj same
  exact congrArg (Prod.mk path) (faithful.injective path moved)

/-- The declarations that are being collected are told apart in both editions. -/
theorem contains_moved (faithful : edition.Faithful) (keys : List (Path × Nat))
    (key : Path × Nat) :
    (keys.map edition.moved).contains (edition.moved key) = keys.contains key := by
  rw [Bool.eq_iff_iff, List.contains_iff_mem, List.contains_iff_mem]
  exact List.mem_map_of_injective (moved_injective faithful)

theorem filter_moved (faithful : edition.Faithful) (keys : List (Path × Nat))
    (key : Path × Nat) :
    (keys.map edition.moved).filter (fun other => other != edition.moved key) =
      (keys.filter fun other => other != key).map edition.moved := by
  rw [List.filter_map]
  congr 1
  refine List.filter_congr fun other _ => ?_
  rw [Function.comp, Bool.eq_iff_iff, bne_iff_ne, bne_iff_ne, (moved_injective faithful).ne_iff]

end Edition

/-- What is known about cells that stand for each other. -/
inductive Cell.Like (spelling : Spelling) (relation : TypeTerm → TypeTerm → Prop) :
    Cell → Cell → Prop where
  | mk {name : Option String} {target otherTarget : Option TypeTerm}
      {members otherMembers : Option (Members TypeTerm)}
      (targetRelated : Option.Rel relation target otherTarget)
      (membersRelated : Option.Rel (Members.Like spelling relation) members otherMembers)
      (fixed : ∀ known, name = some known → spelling.Fixed known) :
      Like spelling relation ⟨name, target, members⟩ ⟨name, otherTarget, otherMembers⟩

/-- Cells that hold what is alike. -/
abbrev AlikeCell (revision : Revision) (links : Links) : Cell → Cell → Prop :=
  Cell.Like revision.spelling (Alike revision links)

namespace Session

variable {edition : Edition} {links more most : Links}

/-! ## Sessions that match -/

/-- Each index belongs to at most one link. -/
def OneToOne (linked : Nat → Nat → Prop) : Prop :=
  ∀ first other second another, linked first other → linked second another →
    (first = second ↔ other = another)

/-- Linked places of two arrays hold what is related. -/
def Holds {α : Type} (linked : Nat → Nat → Prop) (relation : α → α → Prop)
    (values others : Array α) : Prop :=
  ∀ index other, linked index other → ∃ value twin, values[index]? = some value ∧
    others[other]? = some twin ∧ relation value twin

/-- Two sessions, one for each of the editions, that are collecting the members of the same
declarations, and hold what is alike in linked cells. -/
structure Matches (edition : Edition) (links : Links) (session other : Session) : Prop where
  fromTree : FromTree edition.tree edition.root session
  otherFromTree : FromTree edition.copy edition.root other
  expanding : other.expanding = session.expanding.map edition.moved
  cells : Holds links.cells (AlikeCell edition.revision links) session.cells other.cells
  lists : Holds links.lists (AlikeValues edition.revision links) session.parameterLists
    other.parameterLists
  cellsOneToOne : OneToOne links.cells
  listsOneToOne : OneToOne links.lists

/-- An array that grows keeps what stands at indices without a link, and new links are for new
indices. -/
structure Keeps
    {α : Type} (linked moreLinked : Nat → Nat → Prop) (values after : Array α) : Prop where
  grows : values.size ≤ after.size
  kept : ∀ index, index < values.size → (∀ other, ¬linked index other) →
    after[index]? = values[index]?
  new : ∀ index other, moreLinked index other → linked index other ∨ values.size ≤ index

/-- A run with some links keeps all that is not linked, and what is being collected. -/
structure Touches (links more : Links) (session after : Session) : Prop where
  below : links.Below more
  expanding : after.expanding = session.expanding
  cells : Keeps links.cells more.cells session.cells after.cells
  lists : Keeps links.lists more.lists session.parameterLists after.parameterLists

theorem Keeps.refl {α : Type} (linked : Nat → Nat → Prop) (values : Array α) :
    Keeps linked linked values values :=
  ⟨Nat.le_refl _, fun _ _ _ => rfl, fun _ _ => .inl⟩

/-- What is kept along two runs is kept along the run of both. -/
theorem Keeps.trans
    {α : Type} {linked moreLinked mostLinked : Nat → Nat → Prop} {values between after : Array α}
    (first : Keeps linked moreLinked values between)
    (second : Keeps moreLinked mostLinked between after) :
    Keeps linked mostLinked values after := by
  refine ⟨Nat.le_trans first.grows second.grows, ?_, ?_⟩
  · intro index old unlinked
    rw [second.kept index (Nat.lt_of_lt_of_le old first.grows), first.kept index old unlinked]
    intro other isLinked
    rcases first.new index other isLinked with early | late
    · exact unlinked other early
    · exact absurd old (Nat.not_lt.mpr late)
  · intro index other isLinked
    rcases second.new index other isLinked with between | late
    · exact first.new index other between
    · exact .inr (Nat.le_trans first.grows late)

/-! ## Growing and changing -/

/-- A link more, between two new indices. -/
def withLink (linked : Nat → Nat → Prop) (index other : Nat) : Nat → Nat → Prop :=
  fun first second => linked first second ∨ first = index ∧ second = other

section Arrays

variable {α : Type} {linked : Nat → Nat → Prop} {relation wider : α → α → Prop}
  {values others : Array α} {value twin : α} {index other : Nat} {change otherChange : α → α}

theorem Holds.lt (holds : Holds linked relation values others) (isLinked : linked index other) :
    index < values.size ∧ other < others.size := by
  obtain ⟨value, twin, found, otherFound, _⟩ := holds index other isLinked
  exact ⟨(Array.getElem?_eq_some_iff.mp found).1, (Array.getElem?_eq_some_iff.mp otherFound).1⟩

theorem Holds.mono (holds : Holds linked relation values others)
    (implied : ∀ value twin, relation value twin → wider value twin) :
    Holds linked wider values others := by
  intro index other isLinked
  obtain ⟨value, twin, found, otherFound, related⟩ := holds index other isLinked
  exact ⟨value, twin, found, otherFound, implied value twin related⟩

theorem Holds.push (holds : Holds linked relation values others) (related : relation value twin) :
    Holds (withLink linked values.size others.size) relation (values.push value)
      (others.push twin) := by
  intro index other isLinked
  rcases isLinked with old | ⟨rfl, rfl⟩
  · obtain ⟨found, otherFound, known, otherKnown, foundRelated⟩ := holds index other old
    obtain ⟨inside, otherInside⟩ := holds.lt old
    refine ⟨found, otherFound, ?_, ?_, foundRelated⟩
    · rwa [Array.getElem?_push, if_neg (Nat.ne_of_lt inside)]
    · rwa [Array.getElem?_push, if_neg (Nat.ne_of_lt otherInside)]
  · exact ⟨value, twin, by simp, by simp, related⟩

theorem OneToOne.withLink (oneToOne : OneToOne linked)
    (holds : Holds linked relation values others) :
    OneToOne (withLink linked values.size others.size) := by
  intro first other second another isLinked anotherLinked
  rcases isLinked with old | ⟨rfl, rfl⟩ <;> rcases anotherLinked with anotherOld | ⟨rfl, rfl⟩
  · exact oneToOne first other second another old anotherOld
  · have inside := holds.lt old
    omega
  · have inside := holds.lt anotherOld
    omega
  · simp

theorem Keeps.push (values : Array α) (value : α) (other : Nat) :
    Keeps linked (withLink linked values.size other) values (values.push value) := by
  refine ⟨by simp, ?_, ?_⟩
  · intro index old _
    rw [Array.getElem?_push, if_neg (Nat.ne_of_lt old)]
  · rintro index another (old | ⟨rfl, rfl⟩)
    · exact .inl old
    · exact .inr (Nat.le_refl _)

/-- Changing linked places alike keeps linked places related. -/
theorem Holds.modify (holds : Holds linked relation values others) (oneToOne : OneToOne linked)
    (isLinked : linked index other)
    (changed : ∀ value twin, relation value twin → relation (change value) (otherChange twin)) :
    Holds linked relation (values.modify index change) (others.modify other otherChange) := by
  intro second another anotherLinked
  obtain ⟨value, twin, found, otherFound, related⟩ := holds second another anotherLinked
  have together := oneToOne index other second another isLinked anotherLinked
  rw [Array.getElem?_modify, Array.getElem?_modify, found, otherFound]
  by_cases same : index = second
  · rw [if_pos same, if_pos (together.mp same)]
    exact ⟨_, _, rfl, rfl, changed value twin related⟩
  · rw [if_neg same, if_neg fun otherSame => same (together.mpr otherSame)]
    exact ⟨value, twin, rfl, rfl, related⟩

theorem Keeps.modify (isLinked : linked index other) :
    Keeps linked linked values (values.modify index change) := by
  refine ⟨by simp, ?_, fun _ _ => .inl⟩
  intro second old unlinked
  rw [Array.getElem?_modify, if_neg]
  rintro rfl
  exact unlinked other isLinked

end Arrays

end Session

theorem Links.Below.refl (links : Links) : links.Below links :=
  ⟨fun _ _ => id, fun _ _ => id⟩

theorem Links.Below.trans {links more most : Links} (first : links.Below more)
    (second : more.Below most) :
    links.Below most :=
  ⟨fun cell other linked => second.cells cell other (first.cells cell other linked),
    fun list other linked => second.lists list other (first.lists list other linked)⟩

namespace Session

variable {edition : Edition} {links more most : Links}

theorem Touches.refl (links : Links) (session : Session) : Touches links links session session :=
  ⟨.refl links, rfl, .refl _ _, .refl _ _⟩

theorem Touches.trans {session between after : Session} (first : Touches links more session between)
    (second : Touches more most between after) :
    Touches links most session after :=
  ⟨first.below.trans second.below, second.expanding.trans first.expanding,
    first.cells.trans second.cells, first.lists.trans second.lists⟩

/-! ## Tasks that are followed -/

variable {α β γ δ : Type} {relation wider : Links → α → β → Prop} {further : Links → γ → δ → Prop}
  {task : Task Session α} {other : Task Session β}

/-- Whatever the first task answers, the second one answers as well, from sessions that match along
some links; and it fails as the first one fails. -/
def Followed (edition : Edition) (links : Links) (relation : Links → α → β → Prop)
    (task : Task Session α) (other : Task Session β) : Prop :=
  ∀ journal twin outcome after, Matches edition links journal.state twin.state →
    task edition.tree journal = (outcome, after) →
    ∃ more answer twinAfter, other edition.copy twin = (answer, twinAfter) ∧
      Touches links more journal.state after.state ∧
      Matches edition more after.state twinAfter.state ∧
      Outcomes (relation more) outcome answer

/-- The other run answers where the first one does, and with a related value. -/
theorem Followed.answers
    {journal after : Journal Session} {twin : Journal Session} {value : α}
    (followed : Followed edition links relation task other)
    (holds : Matches edition links journal.state twin.state)
    (ran : task edition.tree journal = (.ok value, after)) :
    ∃ more answer twinAfter, other edition.copy twin = (.ok answer, twinAfter) ∧
      Touches links more journal.state after.state ∧
      Matches edition more after.state twinAfter.state ∧ relation more value answer := by
  obtain ⟨more, _, twinAfter, otherRan, touches, matched, outcomes⟩ :=
    followed journal twin _ after holds ran
  cases outcomes with
  | ok related => exact ⟨more, _, twinAfter, otherRan, touches, matched, related⟩

/-- The other run fails where the first one does, and for the same reason. -/
theorem Followed.fails
    {journal after : Journal Session} {twin : Journal Session} {failure : Failure}
    (followed : Followed edition links relation task other)
    (holds : Matches edition links journal.state twin.state)
    (ran : task edition.tree journal = (.error failure, after)) :
    ∃ more twinAfter, other edition.copy twin = (.error failure, twinAfter) ∧
      Touches links more journal.state after.state ∧
      Matches edition more after.state twinAfter.state := by
  obtain ⟨more, _, twinAfter, otherRan, touches, matched, outcomes⟩ :=
    followed journal twin _ after holds ran
  cases outcomes with
  | error => exact ⟨more, twinAfter, otherRan, touches, matched⟩

theorem followed_pure {value : α} {other : β} (related : relation links value other) :
    Followed edition links relation (pure value) (pure other) := by
  intro journal twin outcome after holds ran
  cases ran
  exact ⟨links, _, twin, rfl, .refl _ _, holds, .ok related⟩

theorem followed_fail (failure : Failure) :
    Followed edition links relation (Task.fail failure) (Task.fail failure) := by
  intro journal twin outcome after holds ran
  cases ran
  exact ⟨links, _, twin, rfl, .refl _ _, holds, .error failure⟩

/-- Tasks that follow each other go on to tasks that do. -/
theorem Followed.bind
    {next : α → Task Session γ} {otherNext : β → Task Session δ}
    (followed : Followed edition links relation task other)
    (goesOn : ∀ more, links.Below more → ∀ value answer, relation more value answer →
      Followed edition more further (next value) (otherNext answer)) :
    Followed edition links further (task >>= next) (other >>= otherNext) := by
  intro journal twin outcome after holds ran
  cases started : task edition.tree journal with
  | mk first between =>
    obtain ⟨more, answer, twinBetween, otherStarted, touches, matched, outcomes⟩ :=
      followed journal twin first between holds started
    cases outcomes with
    | error failure =>
      rw [Task.bind_of_error started] at ran
      cases ran
      exact ⟨more, _, twinBetween, Task.bind_of_error otherStarted, touches, matched,
        .error failure⟩
    | ok related =>
      rw [Task.bind_of_ok started] at ran
      obtain ⟨most, last, twinAfter, finished, furtherTouches, furtherMatched, furtherOutcomes⟩ :=
        goesOn more touches.below _ _ related between twinBetween outcome after matched ran
      exact ⟨most, last, twinAfter, (Task.bind_of_ok otherStarted).trans finished,
        touches.trans furtherTouches, furtherMatched, furtherOutcomes⟩

theorem Followed.map
    {image : α → γ} {otherImage : β → δ}
    (followed : Followed edition links relation task other)
    (implied : ∀ more, links.Below more → ∀ value answer, relation more value answer →
      further more (image value) (otherImage answer)) :
    Followed edition links further (do return image (← task)) (do return otherImage (← other)) :=
  followed.bind fun more below value answer related =>
    followed_pure (implied more below value answer related)

theorem Followed.mono
    (followed : Followed edition links relation task other)
    (implied : ∀ more value answer, relation more value answer → wider more value answer) :
    Followed edition links wider task other := by
  intro journal twin outcome after holds ran
  obtain ⟨more, answer, twinAfter, otherRan, touches, matched, outcomes⟩ :=
    followed journal twin outcome after holds ran
  exact ⟨more, answer, twinAfter, otherRan, touches, matched, outcomes.mono (implied more)⟩

/-- Related lists are gone through side by side. -/
theorem followed_mapM {ι κ : Type} {step : ι → Task Session α} {otherStep : κ → Task Session β}
    {similar : ι → κ → Prop} {entries : List ι} {others : List κ} (persists : Persists relation)
    (entriesRelated : Listwise similar entries others)
    (each : ∀ more, links.Below more → ∀ entry other, similar entry other →
      Followed edition more relation (step entry) (otherStep other)) :
    Followed edition links (fun links => Listwise (relation links))
      (entries.mapM step) (others.mapM otherStep) := by
  induction entriesRelated generalizing links with
  | nil => exact followed_pure .nil
  | @cons entry other rest more head _ ih =>
    rw [List.mapM_cons, List.mapM_cons]
    refine (each links (.refl links) entry other head).bind ?_
    intro advanced below value answer valueRelated
    have later : Followed edition advanced (fun links => Listwise (relation links))
        (rest.mapM step) (more.mapM otherStep) :=
      ih fun most further => each most (below.trans further)
    refine later.bind fun most further values answers tail => followed_pure ?_
    exact .cons (persists advanced most further value answer valueRelated) tail

/-! ## Cells -/

theorem alikeCell_mono (below : links.Below more) :
    ∀ cell other, AlikeCell edition.revision links cell other →
      AlikeCell edition.revision more cell other := by
  rintro _ _ ⟨target, members, fixed⟩
  refine ⟨optionRel_mono target fun _ _ => Alike.mono below, optionRel_mono members ?_, fixed⟩
  rintro _ _ ⟨properties, signatures⟩
  exact ⟨properties_mono below properties, signatures_mono below signatures⟩

/-- New cells are linked to each other. -/
theorem followed_newCell :
    Followed edition links (fun links => links.cells) newCell newCell := by
  intro journal twin outcome after holds ran
  cases ran
  have below : links.Below
      ⟨withLink links.cells journal.state.cells.size twin.state.cells.size, links.lists⟩ :=
    ⟨fun _ _ => .inl, fun _ _ => id⟩
  have empty : AlikeCell edition.revision links ⟨none, none, none⟩ ⟨none, none, none⟩ :=
    ⟨.none, .none, fun _ impossible => by cases impossible⟩
  refine ⟨_, .ok twin.state.cells.size, _, rfl, ⟨below, rfl, .push _ _ _, .refl _ _⟩, ?_,
    .ok (.inr ⟨rfl, rfl⟩)⟩
  exact ⟨holds.fromTree.of_eq rfl rfl, holds.otherFromTree.of_eq rfl rfl, holds.expanding,
    (holds.cells.push empty).mono (alikeCell_mono below),
    holds.lists.mono fun _ _ => values_mono below,
    holds.cellsOneToOne.withLink holds.cells, holds.listsOneToOne⟩

theorem followed_cellOf {cell other : Nat} (linked : links.cells cell other) :
    Followed edition links (AlikeCell edition.revision) (cellOf cell)
      (cellOf other) := by
  intro journal twin outcome after holds ran
  obtain ⟨known, otherKnown, found, otherFound, related⟩ := holds.cells cell other linked
  cases ran
  refine ⟨links, .ok otherKnown, twin, ?_, .refl _ _, holds, .ok ?_⟩
  · change (Except.ok _, twin) = _
    simp [Array.getD_eq_getD_getElem?, otherFound]
  · rwa [Array.getD_eq_getD_getElem?, found]

/-- Linked cells are changed alike. -/
theorem followed_setCell {cell other : Nat} {change otherChange : Cell → Cell}
    (linked : links.cells cell other)
    (changed : ∀ known twin, AlikeCell edition.revision links known twin →
      AlikeCell edition.revision links (change known) (otherChange twin)) :
    Followed edition links (fun _ _ _ => True) (setCell cell change)
      (setCell other otherChange) := by
  intro journal twin outcome after holds ran
  cases ran
  refine ⟨links, .ok (), _, rfl, ⟨.refl _, rfl, .modify linked, .refl _ _⟩, ?_, .ok trivial⟩
  exact ⟨holds.fromTree.of_eq rfl rfl, holds.otherFromTree.of_eq rfl rfl, holds.expanding,
    holds.cells.modify holds.cellsOneToOne linked changed, holds.lists, holds.cellsOneToOne,
    holds.listsOneToOne⟩

/-! ## Lists of parameter values -/

theorem followed_newParameterList :
    Followed edition links (fun links => links.lists) newParameterList newParameterList := by
  intro journal twin outcome after holds ran
  cases ran
  have below : links.Below ⟨links.cells,
      withLink links.lists journal.state.parameterLists.size twin.state.parameterLists.size⟩ :=
    ⟨fun _ _ => id, fun _ _ => .inl⟩
  refine ⟨_, .ok twin.state.parameterLists.size, _, rfl, ⟨below, rfl, .refl _ _, .push _ _ _⟩,
    ?_, .ok (.inr ⟨rfl, rfl⟩)⟩
  exact ⟨holds.fromTree.of_eq rfl rfl, holds.otherFromTree.of_eq rfl rfl, holds.expanding,
    holds.cells.mono (alikeCell_mono below),
    (holds.lists.push .nil).mono fun _ _ => values_mono below,
    holds.cellsOneToOne, holds.listsOneToOne.withLink holds.lists⟩

theorem followed_keepParameters {list other : Nat} {bound others : List (String × TypeTerm)}
    (linked : links.lists list other) (related : AlikeValues edition.revision links bound others) :
    Followed edition links (fun _ _ _ => True) (keepParameters list bound)
      (keepParameters other others) := by
  intro journal twin outcome after holds ran
  cases ran
  have kept : Keeps links.lists links.lists journal.state.parameterLists
      (journal.state.parameterLists.modify list fun _ => bound) := .modify linked
  refine ⟨links, .ok (), _, rfl, ⟨.refl _, rfl, .refl _ _, kept⟩, ?_, .ok trivial⟩
  exact ⟨holds.fromTree.of_eq rfl rfl, holds.otherFromTree.of_eq rfl rfl, holds.expanding,
    holds.cells, holds.lists.modify holds.listsOneToOne linked fun _ _ _ => related,
    holds.cellsOneToOne, holds.listsOneToOne⟩

theorem followed_parametersIn {list other : Nat} (linked : links.lists list other) :
    Followed edition links (fun links => Option.Rel (AlikeValues edition.revision links))
      (parametersIn list) (parametersIn other) := by
  intro journal twin outcome after holds ran
  obtain ⟨known, otherKnown, found, otherFound, related⟩ := holds.lists list other linked
  cases ran
  refine ⟨links, .ok (some otherKnown), twin, ?_, .refl _ _, holds, .ok ?_⟩
  · change (Except.ok _, twin) = _
    rw [otherFound]
  · rw [found]
    exact .some related

/-! ## Failures and comments -/

theorem Followed.attempt
    (followed : Followed edition links relation task other) :
    Followed edition links (fun links => Outcomes (relation links)) (Task.attempt task)
      (Task.attempt other) := by
  intro journal twin outcome after holds ran
  rw [Task.attempt_eq] at ran
  cases ran
  obtain ⟨more, answer, twinAfter, otherRan, touches, matched, outcomes⟩ :=
    followed journal twin _ _ holds rfl
  refine ⟨more, .ok answer, twinAfter, ?_, touches, matched, .ok outcomes⟩
  rw [Task.attempt_eq, otherRan]

/-- A step that gives nothing for comments gives the same for a list and for one with comments in
between. -/
theorem followed_filterMapM
    {step : Node → Task Session (Option α)} {otherStep : Node → Task Session (Option β)}
    {similar : Node → Node → Prop} {nodes copies : List Node} (persists : Persists relation)
    (interleaved : Interleaved similar nodes copies)
    (each : ∀ more, links.Below more → ∀ node copy, similar node copy →
      Followed edition more (fun links => Option.Rel (relation links)) (step node)
        (otherStep copy))
    (passesOver : ∀ start line text, otherStep (Node.comment start line text) = pure none) :
    Followed edition links (fun links found answers => Listwise (relation links)
        (found.filterMap id) (answers.filterMap id))
      (nodes.mapM step) (copies.mapM otherStep) := by
  induction interleaved generalizing links with
  | nil => exact followed_pure .nil
  | @cons node copy rest copies head _ ih =>
    rw [List.mapM_cons, List.mapM_cons]
    refine (each links (.refl links) _ _ head).bind fun advanced below value answer first => ?_
    have later : Followed edition advanced (fun links found answers => Listwise (relation links)
        (found.filterMap id) (answers.filterMap id)) (rest.mapM step) (copies.mapM otherStep) :=
      ih fun most further => each most (below.trans further)
    refine later.bind fun most further _ _ tail => followed_pure ?_
    cases first with
    | none => exact tail
    | some related => exact .cons (persists _ _ further _ _ related) tail
  | @insert nodes copies start line text _ ih =>
    rw [List.mapM_cons, passesOver, pure_bind]
    have both : Followed edition links (fun links found answers => Listwise (relation links)
        (found.filterMap id) (answers.filterMap id))
        (nodes.mapM step >>= pure) (do return none :: (← copies.mapM otherStep)) :=
      (ih each).bind fun _ _ _ _ tail => followed_pure tail
    rwa [bind_pure] at both

/-! ## The file tree and modules -/

/-- Tasks that settle from sessions that read from the file trees, and leave all cells as they are.
-/
theorem followed_of_settles
    {settled : Except Failure α} {answer : Except Failure β} {related : α → β → Prop}
    (settles : Task.Settles edition.tree (FromTree edition.tree edition.root) task settled)
    (otherSettles : Task.Settles edition.copy (FromTree edition.copy edition.root) other answer)
    (outcomes : Outcomes related settled answer)
    (leaves : ∀ journal, (task edition.tree journal).2.state.cells = journal.state.cells ∧
      (task edition.tree journal).2.state.parameterLists = journal.state.parameterLists ∧
      (task edition.tree journal).2.state.expanding = journal.state.expanding)
    (otherLeaves : ∀ journal, (other edition.copy journal).2.state.cells = journal.state.cells ∧
      (other edition.copy journal).2.state.parameterLists = journal.state.parameterLists ∧
      (other edition.copy journal).2.state.expanding = journal.state.expanding) :
    Followed edition links (fun _ => related) task other := by
  intro journal twin outcome after holds ran
  obtain ⟨_, settledRan, fromTree⟩ := settles journal holds.fromTree
  obtain ⟨twinAfter, twinRan, otherFromTree⟩ := otherSettles twin holds.otherFromTree
  rw [ran] at settledRan
  cases settledRan
  obtain ⟨sameCells, sameLists, sameExpanding⟩ := leaves journal
  obtain ⟨twinCells, twinLists, twinExpanding⟩ := otherLeaves twin
  rw [ran] at sameCells sameLists sameExpanding
  rw [twinRan] at twinCells twinLists twinExpanding
  refine ⟨links, answer, twinAfter, twinRan, ⟨.refl _, sameExpanding, ?_, ?_⟩, ?_, outcomes⟩
  · rw [sameCells]
    exact .refl _ _
  · rw [sameLists]
    exact .refl _ _
  · refine ⟨fromTree, otherFromTree, ?_, ?_, ?_, holds.cellsOneToOne, holds.listsOneToOne⟩
    · rw [sameExpanding, twinExpanding, holds.expanding]
    · rw [sameCells, twinCells]
      exact holds.cells
    · rw [sameLists, twinLists]
      exact holds.lists

/-- A task that is steady whatever the state is, and so leaves it as it is. -/
theorem followed_of_steady {among : FileTree → Prop} {kind : α → Prop}
    (steady : ∀ good : FileTree → Session → Prop, Task.SteadyAmong among good kind task)
    (here : among edition.tree) (there : among edition.copy) :
    Followed edition links (fun _ => Eq) task task := by
  have leaves : ∀ tree, among tree → ∀ journal,
      (task tree journal).2.state.cells = journal.state.cells ∧
      (task tree journal).2.state.parameterLists = journal.state.parameterLists ∧
      (task tree journal).2.state.expanding = journal.state.expanding := by
    intro tree member journal
    rw [(steady fun _ => (· = journal.state)).state_eq member]
    exact ⟨rfl, rfl, rfl⟩
  obtain ⟨outcome, settles, _⟩ := steady fun tree => FromTree tree edition.root
  exact followed_of_settles (settles _ here) (settles _ there) (outcomes_eq rfl) (leaves _ here)
    (leaves _ there)

theorem followed_resolvePath (faithful : edition.Faithful) (path : Path) :
    Followed edition links (fun _ => Eq) (Task.resolvePath path) (Task.resolvePath path) :=
  followed_of_steady (fun _ => Task.agreeing_resolvePath path) (.refl _) faithful.agrees

/-- A task of the resolver comes to the same in both file trees. -/
theorem followed_resolving {task : Task Resolver α} {kind : α → Prop}
    (agrees : edition.tree.Agrees edition.copy)
    (steady : Resolver.Steady edition.tree edition.root kind task) :
    Followed edition links (fun _ => Eq) (resolving task) (resolving task) := by
  obtain ⟨outcome, settles, _⟩ := steady
  exact followed_of_settles
    ((settles _ (.refl _)).within (fun _ fromTree => fromTree.coherent.resolver)
      fun _ _ fromTree resolver => ⟨⟨fromTree.coherent.modules, resolver⟩, fromTree.read⟩)
    ((settles _ agrees).within (fun _ fromTree => fromTree.coherent.resolver)
      fun _ _ fromTree resolver => ⟨⟨fromTree.coherent.modules, resolver⟩, fromTree.read⟩)
    (outcomes_eq rfl) (fun _ => ⟨rfl, rfl, rfl⟩) fun _ => ⟨rfl, rfl, rfl⟩

/-- A module and that of the other edition of its file. -/
def Sources (edition : Edition) (source copy : SourceModule) : Prop :=
  source.Revised (edition.revision.inFile source.path) copy

/-- The same file of both editions is read as sources of both, or fails in both. -/
theorem followed_readModule (faithful : edition.Faithful) (canonical : Path) :
    Followed edition links (fun _ => Outcomes (Sources edition)) (readModule canonical)
      (readModule canonical) := by
  refine followed_of_settles (settles_readModule_fromTree canonical)
    (settles_readModule_fromTree canonical) (.ok ?_) (readModule_leaves canonical)
    (readModule_leaves canonical)
  have modules := faithful.modules canonical
  cases read : moduleAt edition.tree canonical with
  | error fault =>
    rw [read] at modules
    cases copyRead : moduleAt edition.copy canonical with
    | error other =>
      rw [copyRead] at modules
      cases modules
      exact .error fault
    | ok _ =>
      rw [copyRead] at modules
      cases modules
  | ok source =>
    rw [read] at modules
    cases copyRead : moduleAt edition.copy canonical with
    | error _ =>
      rw [copyRead] at modules
      cases modules
    | ok copy =>
      rw [copyRead] at modules
      cases modules with
      | ok revised =>
        rw [← path_of_moduleAt read] at revised
        exact .ok revised

/-- Modules of both editions, and the declarations in them, that are taken for each other. -/
structure Paired (edition : Edition) (modules : SourceModule → SourceModule → Prop)
    (declared : Path → Declaration → Declaration → Prop) : Prop where
  faithful : edition.Faithful
  path : ∀ {source copy}, modules source copy → source.path = copy.path
  reExports : ∀ {source copy}, modules source copy → source.reExports = copy.reExports
  exports : ∀ {source copy}, modules source copy →
    Listwise (Named (declared source.path)) source.exports copy.exports
  reads : ∀ links canonical, Followed edition links (fun _ => Outcomes modules)
    (readModule canonical) (readModule canonical)

theorem paired_sources (faithful : edition.Faithful) :
    Paired edition (Sources edition) fun path =>
      Declaration.Revised (edition.revision.inFile path) :=
  ⟨faithful, SourceModule.Revised.path, SourceModule.Revised.reExports,
    SourceModule.Revised.exports, fun _ => followed_readModule faithful⟩

/-- Every module of a file tree is taken for itself. -/
theorem paired_same (tree : FileTree) (root : Path) :
    Paired (.same tree root) Eq fun _ => Eq := by
  refine ⟨Edition.faithful_same tree root, congrArg _, congrArg _, ?_, fun links canonical => ?_⟩
  · rintro source _ rfl
    exact .refl fun _ _ => ⟨rfl⟩
  · have settles := @settles_readModule_fromTree tree root canonical
    exact followed_of_settles settles settles (.ok (outcomes_eq rfl)) (readModule_leaves canonical)
      (readModule_leaves canonical)

section Paired

variable {modules : SourceModule → SourceModule → Prop}
  {declared : Path → Declaration → Declaration → Prop} (paired : Paired edition modules declared)

include paired

theorem followed_parse (path : Path) :
    Followed edition links (fun _ => Outcomes modules) (parse path) (parse path) := by
  refine (followed_resolvePath paired.faithful path).bind ?_
  rintro more _ canonical _ rfl
  exact paired.reads more canonical

/-- What a specifier leads to in the one edition it leads to in the other one. -/
theorem followed_load (specifier : String) {importer copy : SourceModule}
    (samePath : importer.path = copy.path) :
    Followed edition links (fun _ => Option.Rel modules) (load specifier importer)
      (load specifier copy) := by
  unfold load
  rw [samePath]
  refine (followed_resolving paired.faithful.agrees
    (Resolver.steady_resolve specifier copy.path)).bind ?_
  rintro more _ resolution _ rfl
  split
  · exact followed_pure .none
  · split
    · refine (followed_parse paired _).map fun _ _ parsed copyParsed both => ?_
      cases both with
      | error fault => exact .none
      | ok related => exact .some related
    · exact followed_pure .none

end Paired

theorem followed_sizeBound (faithful : edition.Faithful) :
    Followed edition links (fun _ => Eq) sizeBound sizeBound := by
  intro journal twin outcome after holds ran
  rw [holds.fromTree.sizeBound_eq] at ran
  cases ran
  refine ⟨links, _, twin, holds.otherFromTree.sizeBound_eq, .refl _ _, holds, ?_⟩
  exact outcomes_eq (congrArg Except.ok faithful.bound)

end Session
end ModuleAtlas
