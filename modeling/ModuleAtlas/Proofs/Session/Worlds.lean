import ModuleAtlas.Proofs.Types.MemberTwins

/-!
# Runs side by side

What is read into one session one after the other could have been read into sessions of its own.
Each world pairs a part of what was read with a session that read that part alone.  Worlds are apart
when no cell of the common session belongs to two of them; then a run in one world is no matter of
the others.
-/

namespace ModuleAtlas

open ModuleAtlas.Types

/-! ## Links that are apart -/

/-- No cells stand for each other. -/
def Links.empty : Links := ⟨fun _ _ => False, fun _ _ => False⟩

/-- No cell and no list of the first session has links of both kinds. -/
structure Links.Apart (links other : Links) : Prop where
  cells : ∀ cell first second, links.cells cell first → ¬other.cells cell second
  lists : ∀ list first second, links.lists list first → ¬other.lists list second

theorem Links.empty_below (links : Links) : Links.empty.Below links :=
  ⟨fun _ _ => False.elim, fun _ _ => False.elim⟩

theorem Links.apart_empty (links : Links) : links.Apart .empty :=
  ⟨fun _ _ _ _ => id, fun _ _ _ _ => id⟩

/-- None of the values of type parameters has a cell, so that all that is read in the scope has
cells of its own. -/
def Plain (scope : Scope TypeTerm) : Prop := AlikeScope .same .empty scope scope

theorem Links.Apart.symm {links other : Links} (apart : links.Apart other) : other.Apart links :=
  ⟨fun cell first second isLinked otherLinked => apart.cells cell second first otherLinked isLinked,
    fun list first second isLinked otherLinked =>
      apart.lists list second first otherLinked isLinked⟩

namespace Session

variable {tree : FileTree} {root : Path} {links other more : Links} {session after twin : Session}

section Arrays

variable {α : Type} {linked otherLinked moreLinked : Nat → Nat → Prop} {relation : α → α → Prop}
  {values grown others : Array α}

theorem Holds.kept (holds : Holds linked relation values others)
    (keeps : Keeps otherLinked moreLinked values grown)
    (apart : ∀ index first second, linked index first → ¬otherLinked index second) :
    Holds linked relation grown others := by
  intro index first isLinked
  obtain ⟨value, answer, found, otherFound, related⟩ := holds index first isLinked
  refine ⟨value, answer, ?_, otherFound, related⟩
  rw [keeps.kept index (holds.lt isLinked).1 fun second => apart index first second isLinked, found]

theorem Keeps.apart (keeps : Keeps otherLinked moreLinked values grown)
    (holds : Holds linked relation values others)
    (apart : ∀ index first second, linked index first → ¬otherLinked index second) :
    ∀ index first second, linked index first → ¬moreLinked index second := by
  intro index first second isLinked moreIsLinked
  rcases keeps.new index second moreIsLinked with old | new
  · exact apart index first second isLinked old
  · exact absurd (holds.lt isLinked).1 (Nat.not_lt.mpr new)

end Arrays

/-- Two sessions that read from two editions of a file tree match along no links. -/
theorem matches_empty {edition : Edition} (fromTree : FromTree edition.tree edition.root session)
    (otherFromTree : FromTree edition.copy edition.root twin)
    (expanding : twin.expanding = session.expanding.map edition.moved) :
    Matches edition .empty session twin :=
  ⟨fromTree, otherFromTree, expanding, fun _ _ => False.elim, fun _ _ => False.elim,
    fun _ _ _ _ => False.elim, fun _ _ _ _ => False.elim⟩

/-- A session matches itself along no links. -/
theorem matches_alone (fromTree : FromTree tree root session) :
    Matches (.same tree root) .empty session session :=
  matches_empty fromTree fromTree (Edition.map_moved_same _).symm

/-- A run that touches other cells leaves matching sessions matching. -/
theorem Matches.kept (holds : Matches (.same tree root) links session twin)
    (touches : Touches other more session after) (apart : links.Apart other)
    (fromTree : FromTree tree root after) :
    Matches (.same tree root) links after twin :=
  ⟨fromTree, holds.otherFromTree, by rw [holds.expanding, touches.expanding],
    holds.cells.kept touches.cells apart.cells, holds.lists.kept touches.lists apart.lists,
    holds.cellsOneToOne, holds.listsOneToOne⟩

/-- Links that a run adds are apart from those that were apart before. -/
theorem Matches.apart (holds : Matches (.same tree root) links session twin)
    (touches : Touches other more session after) (apart : links.Apart other) :
    links.Apart more :=
  ⟨touches.cells.apart holds.cells apart.cells, touches.lists.apart holds.lists apart.lists⟩

end Session

/-! ## Worlds -/

/-- Properties that were read into a common session, and those that a session of its own read in
their place. -/
structure World where
  links : Links
  properties : List (Property TypeTerm)
  others : List (Property TypeTerm)
  twin : Journal Session

/-- The session of a world does not collect a declaration any more. -/
def World.leave (key : Path × Nat) (world : World) : World :=
  { world with twin := leaving key world.twin }

/-- Worlds of a common session that are apart. -/
structure Worlds
    (tree : FileTree) (root : Path) (session : Session) (worlds : List World) : Prop where
  fromTree : Session.FromTree tree root session
  matched : ∀ world ∈ worlds, Session.Matches (.same tree root) world.links session world.twin.state
  alike : ∀ world ∈ worlds, Listwise (AlikeProperty .same world.links) world.properties world.others
  apart : worlds.Pairwise fun world other => world.links.Apart other.links

namespace Worlds

open Session

variable {tree : FileTree} {root : Path} {session after : Session} {worlds : List World}
  {world : World} {more : Links}

/-- What one world touches is no matter of the others. -/
theorem touched (standing : Worlds tree root session (world :: worlds))
    (touches : Touches world.links more session after) (fromTree : FromTree tree root after) :
    Worlds tree root after worlds := by
  obtain ⟨apart, restApart⟩ := List.pairwise_cons.mp standing.apart
  refine ⟨fromTree, fun other member => ?_,
    fun other member => standing.alike other (by simp [member]), restApart⟩
  exact (standing.matched other (by simp [member])).kept touches (apart other member).symm fromTree

/-- One world more, apart from the others. -/
theorem add (standing : Worlds tree root session worlds)
    (matched : Matches (.same tree root) world.links session world.twin.state)
    (alike : Listwise (AlikeProperty .same world.links) world.properties world.others)
    (apart : ∀ other ∈ worlds, other.links.Apart world.links) :
    Worlds tree root session (worlds ++ [world]) := by
  refine ⟨standing.fromTree, ?_, ?_, ?_⟩
  · intro other member
    rcases List.mem_append.mp member with old | new
    · exact standing.matched other old
    · rw [List.mem_singleton.mp new]
      exact matched
  · intro other member
    rcases List.mem_append.mp member with old | new
    · exact standing.alike other old
    · rw [List.mem_singleton.mp new]
      exact alike
  · refine List.pairwise_append.mpr ⟨standing.apart, List.pairwise_singleton _ _, ?_⟩
    intro other member last new
    rw [List.mem_singleton.mp new]
    exact apart other member

/-- The first world may as well be the last one. -/
theorem rotate (standing : Worlds tree root session (world :: worlds)) :
    Worlds tree root session (worlds ++ [world]) := by
  obtain ⟨apart, restApart⟩ := List.pairwise_cons.mp standing.apart
  have rest : Worlds tree root session worlds :=
    ⟨standing.fromTree, fun other member => standing.matched other (by simp [member]),
      fun other member => standing.alike other (by simp [member]), restApart⟩
  exact rest.add (standing.matched world (by simp)) (standing.alike world (by simp))
    fun other member => (apart other member).symm

/-- The first world may show other properties that are alike. -/
theorem showing {links : Links} {properties others part otherPart : List (Property TypeTerm)}
    {twin : Journal Session}
    (standing : Worlds tree root session (⟨links, properties, others, twin⟩ :: worlds))
    (alike : Listwise (AlikeProperty .same links) part otherPart) :
    Worlds tree root session (⟨links, part, otherPart, twin⟩ :: worlds) := by
  refine ⟨standing.fromTree, fun world member => ?_, fun world member => ?_, ?_⟩
  · rcases List.mem_cons.mp member with rfl | member
    · exact standing.matched ⟨links, properties, others, twin⟩ (by simp)
    · exact standing.matched world (by simp [member])
  · rcases List.mem_cons.mp member with rfl | member
    · exact alike
    · exact standing.alike world (by simp [member])
  · exact List.pairwise_cons.mpr (List.pairwise_cons.mp standing.apart)

/-- What runs in the first world goes on in its own session as well. -/
theorem advance
    {α β : Type} {relation : Links → α → β → Prop} {task : Task Session α} {other : Task Session β}
    {links : Links} {journal middle twin : Journal Session} {value : α}
    (standing : Worlds tree root journal.state (⟨links, [], [], twin⟩ :: worlds))
    (followed : Followed (.same tree root) links relation task other)
    (ran : task tree journal = (.ok value, middle)) :
    ∃ more answer twinAfter, other tree twin = (.ok answer, twinAfter) ∧ links.Below more ∧
      relation more value answer ∧
      Worlds tree root middle.state (⟨more, [], [], twinAfter⟩ :: worlds) ∧
      middle.state.expanding = journal.state.expanding := by
  obtain ⟨more, answer, twinAfter, otherRan, touches, matched, related⟩ :=
    followed.answers (standing.matched ⟨links, [], [], twin⟩ (by simp)) ran
  refine ⟨more, answer, twinAfter, otherRan, touches.below, related, ?_, touches.expanding⟩
  have kept := standing.touched touches matched.fromTree
  obtain ⟨apart, _⟩ := List.pairwise_cons.mp standing.apart
  refine ⟨matched.fromTree, fun world member => ?_, fun world member => ?_,
    List.pairwise_cons.mpr ⟨fun world member => ?_, kept.apart⟩⟩
  · rcases List.mem_cons.mp member with rfl | member
    · exact matched
    · exact kept.matched world member
  · rcases List.mem_cons.mp member with rfl | member
    · exact .nil
    · exact kept.alike world member
  · exact ((standing.matched world (by simp [member])).apart touches (apart world member).symm).symm

/-- Reading what needs no cell of the session makes a world more. -/
theorem read
    {task : Task Session (List (Property TypeTerm))} {journal middle start : Journal Session}
    {properties : List (Property TypeTerm)} (standing : Worlds tree root journal.state worlds)
    (closed : Followed (.same tree root) .empty
      (fun links => Listwise (AlikeProperty .same links)) task task)
    (fromTree : FromTree tree root start.state)
    (expanding : journal.state.expanding = start.state.expanding)
    (ran : task tree journal = (.ok properties, middle)) :
    ∃ links others twin, task tree start = (.ok others, twin) ∧
      Worlds tree root middle.state (worlds ++ [⟨links, properties, others, twin⟩]) ∧
      middle.state.expanding = start.state.expanding := by
  have before : Matches (.same tree root) .empty journal.state start.state :=
    matches_empty standing.fromTree fromTree (by rw [Edition.map_moved_same, expanding])
  obtain ⟨links, others, twin, otherRan, touches, matched, related⟩ :=
    closed.answers before ran
  refine ⟨links, others, twin, otherRan, ?_, touches.expanding.trans expanding⟩
  have kept : Worlds tree root middle.state worlds :=
    ⟨matched.fromTree, fun world member => (standing.matched world member).kept touches
      (Links.apart_empty _) matched.fromTree, standing.alike, standing.apart⟩
  refine kept.add matched related fun world member => ?_
  exact (standing.matched world member).apart touches (Links.apart_empty _)

/-- In all sessions at once a declaration is not being collected any more. -/
theorem leave {journal : Journal Session} (standing : Worlds tree root journal.state worlds)
    (key : Path × Nat) :
    Worlds tree root (leaving key journal).state (worlds.map (World.leave key)) := by
  refine ⟨standing.fromTree.of_eq rfl rfl, ?_, ?_, ?_⟩
  · intro world member
    obtain ⟨old, oldMember, rfl⟩ := List.mem_map.mp member
    exact leaving_matches (Edition.faithful_same tree root) (standing.matched old oldMember) key
  · intro world member
    obtain ⟨old, oldMember, rfl⟩ := List.mem_map.mp member
    exact standing.alike old oldMember
  · exact List.pairwise_map.mpr standing.apart

end Worlds
end ModuleAtlas
