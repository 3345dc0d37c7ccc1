import ModuleAtlas.FileTree
import ModuleAtlas.Proofs.Listwise

/-!
# Canonical paths

The places of a file tree, and the paths without links and dots that lead to them.
-/

namespace ModuleAtlas
namespace Entry

/-!
## The places of a file tree

Every entry of a file tree stands at a list of names.  There are as many places as the tree counts
entries, and as many places of links as it counts links.  What is looked up without following links
is found at one of the places.
-/

/-! ### Looking up names -/

theorem at?_cons (name : String) (rest : List String) (entry : Entry) :
    entry.at? (name :: rest) = (entry.child? name).bind (at? rest) := rfl

theorem at?_append (first second : List String) (entry : Entry) :
    entry.at? (first ++ second) = (entry.at? first).bind (at? second) := by
  induction first generalizing entry with
  | nil => rfl
  | cons name rest ih =>
    rw [List.cons_append, at?_cons, at?_cons]
    cases entry.child? name with
    | none => rfl
    | some child => exact ih child

theorem at?_concat (names : List String) (name : String) (entry : Entry) :
    entry.at? (names ++ [name]) = (entry.at? names).bind (child? name) := by
  rw [at?_append]
  congr 1
  funext found
  rw [at?_cons]
  cases found.child? name <;> rfl

variable {entry : Entry} {test : Entry → Bool} {names : List String}

theorem child?_of_at?_concat {name : String} {found : Entry}
    (known : entry.at? (names ++ [name]) = some found) :
    ∃ entries, entry.at? names = some (.directory entries) ∧ entries.lookup name = some found := by
  rw [at?_concat, Option.bind_eq_some_iff] at known
  obtain ⟨parent, parentKnown, childKnown⟩ := known
  cases parent with
  | directory entries => exact ⟨entries, parentKnown, childKnown⟩
  | file bytes tree => cases childKnown
  | link target => cases childKnown

/-! ### Places -/

/-- Whether an entry is a link. -/
def isLink : Entry → Bool
  | .link _ => true
  | _ => false

theorem isLink_eq_false_iff : entry.isLink = false ↔ ∀ target, entry ≠ .link target := by
  cases entry <;> simp [isLink]

mutual

/-- The names at which the entries that pass a test stand. -/
def placesOf (test : Entry → Bool) : Entry → List (List String)
  | .directory entries =>
    (if test (.directory entries) then [[]] else []) ++ placesAmong test entries
  | .file bytes tree => if test (.file bytes tree) then [[]] else []
  | .link target => if test (.link target) then [[]] else []

/-- The names at which entries that pass a test stand among the entries of a directory. -/
def placesAmong (test : Entry → Bool) : List (String × Entry) → List (List String)
  | [] => []
  | (name, entry) :: rest => (placesOf test entry).map (name :: ·) ++ placesAmong test rest

end

theorem nil_mem_placesOf (passes : test entry = true) : [] ∈ placesOf test entry := by
  cases entry <;> simp [placesOf, passes]

theorem mem_placesAmong {entries : List (String × Entry)} {name : String}
    (child : (name, entry) ∈ entries) (member : names ∈ placesOf test entry) :
    name :: names ∈ placesAmong test entries := by
  induction entries with
  | nil => cases child
  | cons pair rest ih =>
    rw [placesAmong, List.mem_append]
    rcases List.mem_cons.mp child with rfl | later
    · exact .inl (List.mem_map.mpr ⟨names, member, rfl⟩)
    · exact .inr (ih later)

/-- A place below a place is a place. -/
theorem append_mem_placesOf {first second : List String} {found : Entry}
    (known : entry.at? first = some found) (member : second ∈ placesOf test found) :
    first ++ second ∈ placesOf test entry := by
  induction first generalizing entry with
  | nil =>
    cases known
    exact member
  | cons name rest ih =>
    rw [at?_cons, Option.bind_eq_some_iff] at known
    obtain ⟨child, childKnown, restKnown⟩ := known
    cases entry with
    | directory entries =>
      rw [placesOf, List.mem_append]
      exact .inr (mem_placesAmong (mem_of_lookup_eq_some childKnown) (ih restKnown))
    | file bytes tree => cases childKnown
    | link target => cases childKnown

/-- What names lead to stands at one of the places. -/
theorem mem_placesOf {found : Entry} (known : entry.at? names = some found)
    (passes : test found = true) : names ∈ placesOf test entry := by
  have member := append_mem_placesOf known (nil_mem_placesOf passes)
  rwa [List.append_nil] at member

mutual

/-- A file tree has as many places as it counts entries. -/
theorem length_placesOf_true : ∀ entry : Entry,
    (placesOf (fun _ => true) entry).length = entry.count
  | .file _ _ => rfl
  | .link _ => rfl
  | .directory entries => by
    rw [placesOf, count, List.length_append, length_placesAmong_true entries]
    simp [Nat.add_comm]

theorem length_placesAmong_true : ∀ entries : List (String × Entry),
    (placesAmong (fun _ => true) entries).length = counts entries
  | [] => rfl
  | (_, entry) :: rest => by
    rw [placesAmong, counts, List.length_append, List.length_map, length_placesOf_true entry,
      length_placesAmong_true rest]

end

mutual

/-- A file tree has as many places of links as it counts links. -/
theorem length_placesOf_isLink : ∀ entry : Entry,
    (placesOf isLink entry).length = entry.linkCount
  | .file _ _ => rfl
  | .link _ => rfl
  | .directory entries => by
    rw [placesOf, linkCount, List.length_append, length_placesAmong_isLink entries]
    simp [isLink]

theorem length_placesAmong_isLink : ∀ entries : List (String × Entry),
    (placesAmong isLink entries).length = linkCounts entries
  | [] => rfl
  | (_, entry) :: rest => by
    rw [placesAmong, linkCounts, List.length_append, List.length_map,
      length_placesOf_isLink entry, length_placesAmong_isLink rest]

end

/-- No more links stand at different names than the tree counts. -/
theorem length_le_linkCount {links : List (List String)} (distinct : links.Nodup)
    (areLinks : ∀ names ∈ links, ∃ target, entry.at? names = some (.link target)) :
    links.length ≤ entry.linkCount := by
  rw [← length_placesOf_isLink]
  refine (List.Nodup.subperm distinct fun names member => ?_).length_le
  obtain ⟨target, known⟩ := areLinks names member
  exact mem_placesOf known rfl

end Entry

namespace FileTree

/-- The canonical paths of all places of a file tree. -/
def located (tree : FileTree) : Finset Path :=
  ((Entry.placesOf (fun _ => true) tree.root).map Path.ofRoot).toFinset

theorem mem_located {tree : FileTree} {names : List String} {entry : Entry}
    (known : tree.root.at? names = some entry) :
    Path.ofRoot names ∈ tree.located := by
  simp only [located, List.mem_toFinset, List.mem_map]
  exact ⟨names, Entry.mem_placesOf known rfl, rfl⟩

/-- A file tree has no more canonical paths than it counts entries. -/
theorem card_located_le (tree : FileTree) : tree.located.card ≤ tree.root.count := by
  refine (List.toFinset_card_le _).trans ?_
  rw [List.length_map, Entry.length_placesOf_true]

end FileTree

/-!
## Canonical paths

A path that leads to an entry is resolved to the names at which the entry stands.  Looking up and
resolving are two readings of one walk: a lookup splices the target of a link into the names left
and is bounded by the number of links followed, resolving goes along the target first and remembers
the links under way.  A walk as a derivation, with the number of links it follows, connects them.
No link is met under way inside its own target, since going along a target takes a fixed number of
links; so the links under way stand at different places and the count of links is fuel enough.
-/

namespace FileTree

variable {tree : FileTree} {here : List String}

/-- A name that a walk goes along: no dot of either kind. -/
def IsPlain (name : String) : Prop :=
  name ≠ ".." ∧ Path.isKept name = true

instance (name : String) : Decidable (IsPlain name) :=
  inferInstanceAs (Decidable (_ ∧ _))

/-- Where the target of a link is seen from: the place of the link, or the root. -/
def linkBase (target : String) (here : List String) : List String :=
  if (Path.ofText target).isAbsolute then [] else here

/-- A walk from reversed names along further names that follows a number of links. -/
inductive Walk (tree : FileTree) : Nat → List String → List String → List String → Prop
  | done {here : List String} : Walk tree 0 here [] here
  | up {links : Nat} {here rest there : List String} :
      Walk tree links here.tail rest there →
      Walk tree links here (".." :: rest) there
  | stay {links : Nat} {here rest there : List String} {name : String} :
      Path.isKept name = false →
      Walk tree links here rest there →
      Walk tree links here (name :: rest) there
  | enter {links : Nat} {here rest there : List String} {name : String} {entry : Entry} :
      IsPlain name →
      tree.root.at? (name :: here).reverse = some entry →
      entry.isLink = false →
      Walk tree links (name :: here) rest there →
      Walk tree links here (name :: rest) there
  | link {inner outer : Nat} {here rest reached there : List String} {name target : String} :
      IsPlain name →
      tree.root.at? (name :: here).reverse = some (.link target) →
      Walk tree inner (linkBase target here) (Path.ofText target).names reached →
      Walk tree outer reached rest there →
      Walk tree (inner + outer + 1) here (name :: rest) there

namespace Walk

/-- A walk along names one after the other stops in between. -/
theorem split {links : Nat} {here names there : List String}
    (walk : Walk tree links here names there) :
    ∀ {first second : List String}, names = first ++ second →
      ∃ early late middle, links = early + late ∧
        Walk tree early here first middle ∧ Walk tree late middle second there := by
  induction walk with
  | done =>
    intro first second equal
    obtain ⟨rfl, rfl⟩ := List.append_eq_nil_iff.mp equal.symm
    exact ⟨0, 0, _, rfl, .done, .done⟩
  | @up links here rest there walk ih =>
    rintro (_ | ⟨name, first⟩) second equal
    · subst equal
      exact ⟨0, links, here, (Nat.zero_add _).symm, .done, .up walk⟩
    · obtain ⟨rfl, rfl⟩ := List.cons.inj equal
      obtain ⟨early, late, middle, sum, before, after⟩ := ih rfl
      exact ⟨early, late, middle, sum, .up before, after⟩
  | @stay links here rest there name dropped walk ih =>
    rintro (_ | ⟨other, first⟩) second equal
    · subst equal
      exact ⟨0, links, here, (Nat.zero_add _).symm, .done, .stay dropped walk⟩
    · obtain ⟨rfl, rfl⟩ := List.cons.inj equal
      obtain ⟨early, late, middle, sum, before, after⟩ := ih rfl
      exact ⟨early, late, middle, sum, .stay dropped before, after⟩
  | @enter links here rest there name entry plain known noLink walk ih =>
    rintro (_ | ⟨other, first⟩) second equal
    · subst equal
      exact ⟨0, links, here, (Nat.zero_add _).symm, .done, .enter plain known noLink walk⟩
    · obtain ⟨rfl, rfl⟩ := List.cons.inj equal
      obtain ⟨early, late, middle, sum, before, after⟩ := ih rfl
      exact ⟨early, late, middle, sum, .enter plain known noLink before, after⟩
  | @link inner outer here rest reached there name target plain known along walk _
      ih =>
    rintro (_ | ⟨other, first⟩) second equal
    · subst equal
      exact ⟨0, _, here, (Nat.zero_add _).symm, .done, .link plain known along walk⟩
    · obtain ⟨rfl, rfl⟩ := List.cons.inj equal
      obtain ⟨early, late, middle, sum, before, after⟩ := ih rfl
      exact ⟨inner + early + 1, late, middle, by omega, .link plain known along before, after⟩

theorem isKept_up : Path.isKept ".." = true := by
  decide

/-- Walks along the same names follow the same number of links and come to the same place. -/
theorem unique {links otherLinks : Nat} {here names there otherThere : List String}
    (walk : Walk tree links here names there) (other : Walk tree otherLinks here names otherThere) :
    links = otherLinks ∧ there = otherThere := by
  induction walk generalizing otherLinks otherThere with
  | done =>
    cases other
    exact ⟨rfl, rfl⟩
  | up walk ih =>
    cases other with
    | up other => exact ih other
    | stay dropped => rw [isKept_up] at dropped; cases dropped
    | enter plain => exact absurd rfl plain.1
    | link plain => exact absurd rfl plain.1
  | stay dropped walk ih =>
    cases other with
    | up => rw [isKept_up] at dropped; cases dropped
    | stay _ other => exact ih other
    | enter plain => rw [plain.2] at dropped; cases dropped
    | link plain => rw [plain.2] at dropped; cases dropped
  | enter plain known noLink walk ih =>
    cases other with
    | up => exact absurd rfl plain.1
    | stay dropped => rw [plain.2] at dropped; cases dropped
    | enter _ _ _ other => exact ih other
    | link _ otherKnown =>
      rw [known] at otherKnown
      cases otherKnown
      cases noLink
  | link plain known along walk innerHypothesis outerHypothesis =>
    cases other with
    | up => exact absurd rfl plain.1
    | stay dropped => rw [plain.2] at dropped; cases dropped
    | enter _ otherKnown noLink =>
      rw [known] at otherKnown
      cases otherKnown
      cases noLink
    | link _ otherKnown otherAlong otherWalk =>
      rw [known] at otherKnown
      cases otherKnown
      obtain ⟨rfl, rfl⟩ := innerHypothesis otherAlong
      obtain ⟨rfl, rfl⟩ := outerHypothesis otherWalk
      exact ⟨rfl, rfl⟩

end Walk

/-! ### The first name of a walk -/

/-- What stands under a name in a directory, as an entry of the tree. -/
theorem at?_reverse_cons {entries : List (String × Entry)}
    (known : tree.root.at? here.reverse = some (.directory entries)) (name : String) :
    tree.root.at? (name :: here).reverse = entries.lookup name := by
  rw [List.reverse_cons, Entry.at?_concat, known]
  rfl

/-- How a walk in a directory gets past a name without a link, and the place that it is at then. -/
inductive Moves (tree : FileTree) (here : List String) : String → List String → Prop
  | up {entries : List (String × Entry)} :
      tree.root.at? here.reverse = some (.directory entries) →
      Moves tree here ".." here.tail
  | stay {name : String} {entries : List (String × Entry)} :
      Path.isKept name = false →
      tree.root.at? here.reverse = some (.directory entries) →
      Moves tree here name here
  | enter {name : String} {entry : Entry} :
      IsPlain name →
      name.utf8ByteSize ≤ nameLimit →
      tree.root.at? (name :: here).reverse = some entry →
      entry.isLink = false →
      Moves tree here name (name :: here)

/-- A link under a name that a walk follows: an empty target leads nowhere. -/
structure Follows (tree : FileTree) (here : List String) (name target : String) : Prop where
  plain : IsPlain name
  short : name.utf8ByteSize ≤ nameLimit
  known : tree.root.at? (name :: here).reverse = some (.link target)
  given : target.isEmpty = false

section Names

variable {here next rest : List String} {name target : String}
  {onLink : List String → List String → Except LookupFault Located}

theorem Walk.move {links : Nat} {there : List String} (moves : tree.Moves here name next)
    (walk : Walk tree links next rest there) : Walk tree links here (name :: rest) there := by
  cases moves with
  | up => exact .up walk
  | stay dropped => exact .stay dropped walk
  | enter plain _ known noLink => exact .enter plain known noLink walk

theorem advance_of_moves (moves : tree.Moves here name next) :
    tree.advance onLink here (name :: rest) = tree.advance onLink next rest := by
  cases moves with
  | up known =>
    rw [advance, known]
    rfl
  | stay dropped known =>
    have notUp : name ≠ ".." := by
      rintro rfl
      rw [Walk.isKept_up] at dropped
      cases dropped
    rw [advance, known]
    dsimp only
    rw [if_neg (by simpa using notUp), if_pos (by simp [dropped])]
  | @enter _ entry plain short known noLink =>
    rw [List.reverse_cons] at known
    obtain ⟨entries, hereKnown, child⟩ := Entry.child?_of_at?_concat known
    rw [advance, hereKnown]
    dsimp only
    rw [if_neg (by simpa using plain.1), if_neg (by simp [plain.2]), if_neg (Nat.not_lt.mpr short),
      child]
    cases entry with
    | link target => cases noLink
    | file bytes parsed => rfl
    | directory inner => rfl

theorem advance_of_follows (follows : tree.Follows here name target) :
    tree.advance onLink here (name :: rest) =
      onLink (linkBase target here) ((Path.ofText target).names ++ rest) := by
  obtain ⟨plain, short, known, given⟩ := follows
  rw [List.reverse_cons] at known
  obtain ⟨entries, hereKnown, child⟩ := Entry.child?_of_at?_concat known
  rw [advance, hereKnown]
  dsimp only
  rw [if_neg (by simpa using plain.1), if_neg (by simp [plain.2]), if_neg (Nat.not_lt.mpr short),
    child]
  dsimp only
  rw [if_neg (by simp [given])]
  rfl

/-- All that a lookup does at a name: it moves on, follows a link, or fails, but never because there
are too many links. -/
theorem cases_of_advance (tree : FileTree) (here : List String) (name : String) :
    (∃ next, tree.Moves here name next) ∨ (∃ target, tree.Follows here name target) ∨
      ∃ fault, fault ≠ .tooManyLinks ∧ ∀ onLink rest,
        tree.advance onLink here (name :: rest) = .error fault := by
  cases known : tree.root.at? here.reverse with
  | none => exact .inr (.inr ⟨.missing, nofun, fun _ _ => by rw [advance, known]⟩)
  | some entry =>
    cases entry with
    | file | link =>
      exact .inr (.inr ⟨.notDirectory, nofun, fun _ _ => by rw [advance, known]⟩)
    | directory entries =>
      by_cases isUp : name = ".."
      · subst isUp
        exact .inl ⟨_, .up known⟩
      by_cases kept : Path.isKept name = true
      case neg => exact .inl ⟨_, .stay (Bool.eq_false_iff.mpr kept) known⟩
      by_cases long : nameLimit < name.utf8ByteSize
      · refine .inr (.inr ⟨.tooLong, nofun, fun _ _ => ?_⟩)
        rw [advance, known]
        simp [isUp, kept, long]
      have child := at?_reverse_cons known name
      cases childKnown : entries.lookup name with
      | none =>
        refine .inr (.inr ⟨.missing, nofun, fun _ _ => ?_⟩)
        rw [advance, known]
        simp [isUp, kept, long, childKnown]
      | some entry =>
        rw [childKnown] at child
        have short := Nat.le_of_not_lt long
        cases entry with
        | file | directory => exact .inl ⟨_, .enter ⟨isUp, kept⟩ short child rfl⟩
        | link target =>
          cases given : target.isEmpty with
          | false => exact .inr (.inl ⟨target, ⟨isUp, kept⟩, short, child, given⟩)
          | true =>
            refine .inr (.inr ⟨.missing, nofun, fun _ _ => ?_⟩)
            rw [advance, known]
            simp [isUp, kept, long, childKnown, given]

end Names

/-! ### A lookup is a walk -/

/-- What a walk is known to have come to: an entry at plain names, and no link unless the walk has
not left the root. -/
structure Stands (tree : FileTree) (there : List String) (entry : Entry) : Prop where
  found : tree.root.at? there.reverse = some entry
  plain : ∀ name ∈ there, IsPlain name
  noLink : there ≠ [] → entry.isLink = false

/-- The result of a lookup is what some walk from a place comes to. -/
def Leads (tree : FileTree) (here names : List String) (found : Located) : Prop :=
  ∃ links there, found.1 = there.reverse ∧ Walk tree links here names there ∧
    tree.Stands there found.2

/-- A place that a walk may be at. -/
structure Firm (tree : FileTree) (here : List String) : Prop where
  plain : ∀ name ∈ here, IsPlain name
  noLink : here ≠ [] → ∀ entry, tree.root.at? here.reverse = some entry → entry.isLink = false

theorem firm_root : tree.Firm [] :=
  ⟨by simp, fun nonempty => absurd rfl nonempty⟩

theorem Firm.tail (firm : tree.Firm here) {entries : List (String × Entry)}
    (known : tree.root.at? here.reverse = some (.directory entries)) :
    tree.Firm here.tail := by
  cases here with
  | nil => exact firm_root
  | cons name rest =>
    refine ⟨fun other member => firm.plain other (List.mem_of_mem_tail member),
      fun _ entry found => ?_⟩
    rw [List.reverse_cons] at known
    obtain ⟨above, aboveKnown, _⟩ := Entry.child?_of_at?_concat known
    rw [List.tail_cons, aboveKnown] at found
    cases found
    rfl

variable {entry : Entry} {names : List String} {found : Located} {links fuel : Nat}
  {pending : List (List String)} {path : Path}
  {onLink : List String → List String → Except LookupFault Located}

theorem Firm.enter (firm : tree.Firm here) {name : String}
    (plain : IsPlain name) (known : tree.root.at? (name :: here).reverse = some entry)
    (noLink : entry.isLink = false) : tree.Firm (name :: here) := by
  refine ⟨?_, fun _ other found => ?_⟩
  · intro other member
    rcases List.mem_cons.mp member with rfl | earlier
    · exact plain
    · exact firm.plain other earlier
  · rw [known] at found
    cases found
    exact noLink

theorem Firm.linkBase (firm : tree.Firm here) (target : String) :
    tree.Firm (linkBase target here) := by
  unfold FileTree.linkBase
  split
  · exact firm_root
  · exact firm

theorem Firm.move {here next : List String} {name : String} (firm : tree.Firm here)
    (moves : tree.Moves here name next) : tree.Firm next := by
  cases moves with
  | up known => exact firm.tail known
  | stay => exact firm
  | enter plain _ known noLink => exact firm.enter plain known noLink

/-- Going on from a place is a walk when following links from there is. -/
theorem advance_leads
    (followed : ∀ here names found, tree.Firm here → onLink here names = .ok found →
      tree.Leads here names found) (firm : tree.Firm here)
    (ran : tree.advance onLink here names = .ok found) : tree.Leads here names found := by
  induction names generalizing here with
  | nil =>
    unfold advance at ran
    cases known : tree.root.at? here.reverse with
    | none => rw [known] at ran; cases ran
    | some entry =>
      rw [known] at ran
      cases ran
      exact ⟨0, here, rfl, .done, known, firm.plain,
        fun nonempty => firm.noLink nonempty entry known⟩
  | cons name rest ih =>
    rcases cases_of_advance tree here name with
      ⟨next, moves⟩ | ⟨target, follows⟩ | ⟨fault, -, stops⟩
    · rw [advance_of_moves moves] at ran
      obtain ⟨links, there, same, walk, stands⟩ := ih (firm.move moves) ran
      exact ⟨links, there, same, .move moves walk, stands⟩
    · rw [advance_of_follows follows] at ran
      obtain ⟨links, there, same, walk, stands⟩ := followed _ _ found (firm.linkBase target) ran
      obtain ⟨inner, outer, reached, rfl, along, onward⟩ := walk.split rfl
      exact ⟨_, there, same, .link follows.plain follows.known along onward, stands⟩
    · rw [stops] at ran
      cases ran

theorem follow_leads (limit : Nat) (firm : tree.Firm here)
    (ran : tree.follow limit here names = .ok found) : tree.Leads here names found := by
  induction limit generalizing here names found with
  | zero => exact advance_leads (fun _ _ _ _ impossible => by cases impossible) firm ran
  | succ limit ih =>
    exact advance_leads (fun _ _ _ firm ran => ih firm ran) firm ran

/-! ### Resolving goes the same way -/

/-- Where resolving stands when a number of links is still ahead: the links under way stand at
different places, going along the target of each takes at least that many links, and there is fuel
for all other links of the tree. -/
structure Ready (tree : FileTree) (links fuel : Nat) (pending : List (List String)) : Prop where
  distinct : pending.Nodup
  underWay : ∀ name here, name :: here ∈ pending →
    ∃ target reached cost, tree.root.at? (name :: here).reverse = some (.link target) ∧
      Walk tree cost (linkBase target here) (Path.ofText target).names reached ∧ links ≤ cost
  nonempty : ∀ names ∈ pending, names ≠ []
  enough : tree.root.linkCount + 1 ≤ fuel + pending.length

theorem Ready.mono {fewer : Nat} (ready : tree.Ready links fuel pending) (less : fewer ≤ links) :
    tree.Ready fewer fuel pending := by
  refine ⟨ready.distinct, fun name here member => ?_, ready.nonempty, ready.enough⟩
  obtain ⟨target, reached, cost, known, along, bound⟩ := ready.underWay name here member
  exact ⟨target, reached, cost, known, along, less.trans bound⟩

theorem Ready.isLink (ready : tree.Ready links fuel pending) (names : List String)
    (member : names ∈ pending) : ∃ target, tree.root.at? names.reverse = some (.link target) := by
  cases names with
  | nil => exact absurd rfl (ready.nonempty [] member)
  | cons name here =>
    obtain ⟨target, _, _, known, _⟩ := ready.underWay name here member
    exact ⟨target, known⟩

theorem Ready.length_le (ready : tree.Ready links fuel pending) :
    pending.length ≤ tree.root.linkCount := by
  rw [← List.length_map List.reverse]
  refine Entry.length_le_linkCount (ready.distinct.map List.reverse_injective) ?_
  intro names member
  obtain ⟨reversed, pendingMember, rfl⟩ := List.mem_map.mp member
  exact ready.isLink reversed pendingMember

/-- A link ahead is not under way, and going along its target can be taken up. -/
theorem Ready.take {inner outer : Nat} {here reached : List String} {name target : String}
    (ready : tree.Ready (inner + outer + 1) (fuel + 1) pending)
    (known : tree.root.at? (name :: here).reverse = some (.link target))
    (along : Walk tree inner (linkBase target here) (Path.ofText target).names reached) :
    name :: here ∉ pending ∧ tree.Ready inner fuel ((name :: here) :: pending) := by
  have fresh : name :: here ∉ pending := by
    intro member
    obtain ⟨otherTarget, otherReached, cost, otherKnown, otherAlong, bound⟩ :=
      ready.underWay name here member
    rw [known] at otherKnown
    cases otherKnown
    have same := (along.unique otherAlong).1
    omega
  have earlier := ready.mono (show inner ≤ inner + outer + 1 by omega)
  refine ⟨fresh, List.nodup_cons.mpr ⟨fresh, ready.distinct⟩, ?_, ?_, ?_⟩
  · intro otherName otherHere member
    rcases List.mem_cons.mp member with same | old
    · obtain ⟨rfl, rfl⟩ := List.cons.inj same
      exact ⟨target, reached, inner, known, along, Nat.le_refl _⟩
    · exact earlier.underWay otherName otherHere old
  · intro names member
    rcases List.mem_cons.mp member with rfl | old
    · simp
    · exact ready.nonempty names old
  · have := ready.enough
    rw [List.length_cons]
    omega

section Steps

variable {onLink : List String → List String → List String → List String × Bool}
  {here rest : List String} {name : String}

theorem resolveAlong_up :
    tree.resolveAlong onLink here (".." :: rest) = tree.resolveAlong onLink here.tail rest := by
  conv_lhs => unfold resolveAlong
  rfl

theorem resolveAlong_stay (dropped : Path.isKept name = false) :
    tree.resolveAlong onLink here (name :: rest) = tree.resolveAlong onLink here rest := by
  have notUp : name ≠ ".." := by
    rintro rfl
    rw [Walk.isKept_up] at dropped
    cases dropped
  conv_lhs => unfold resolveAlong
  simp [notUp, dropped]

theorem resolveAlong_enter (plain : IsPlain name)
    (known : tree.root.at? (name :: here).reverse = some entry) (noLink : entry.isLink = false) :
    tree.resolveAlong onLink here (name :: rest) =
      tree.resolveAlong onLink (name :: here) rest := by
  conv_lhs => unfold resolveAlong
  rw [known]
  cases entry with
  | link target => cases noLink
  | file bytes tree => simp [plain.1, plain.2]
  | directory entries => simp [plain.1, plain.2]

theorem resolveAlong_link {target : String} {reached : List String} (plain : IsPlain name)
    (known : tree.root.at? (name :: here).reverse = some (.link target))
    (along : onLink (name :: here) (linkBase target here) (Path.ofText target).names =
      (reached, true)) :
    tree.resolveAlong onLink here (name :: rest) = tree.resolveAlong onLink reached rest := by
  unfold linkBase at along
  conv_lhs => unfold resolveAlong
  rw [known]
  simp [plain.1, plain.2, along]

end Steps

/-- Resolving follows a walk to its end. -/
theorem resolveWith_of_walk {here there : List String} (walk : Walk tree links here names there) :
    ∀ {fuel : Nat} {pending : List (List String)}, tree.Ready links (fuel + 1) pending →
      tree.resolveWith (fuel + 1) pending here names = (there, true) := by
  induction walk with
  | done => exact fun _ => rfl
  | up walk ih =>
    intro fuel pending ready
    rw [← ih ready]
    exact resolveAlong_up
  | stay dropped walk ih =>
    intro fuel pending ready
    rw [← ih ready]
    exact resolveAlong_stay dropped
  | enter plain known noLink walk ih =>
    intro fuel pending ready
    rw [← ih ready]
    exact resolveAlong_enter plain known noLink
  | @link inner outer here rest reached there name target plain known along walk
      innerHypothesis outerHypothesis =>
    intro fuel pending ready
    obtain ⟨fresh, taken⟩ := ready.take known along
    cases fuel with
    | zero =>
      -- All links of the tree would be under way, so this one could not be fresh.
      have most := taken.length_le
      have enough := ready.enough
      rw [List.length_cons] at most
      omega
    | succ fuel =>
      rw [← outerHypothesis (ready.mono (show outer ≤ inner + outer + 1 by omega))]
      refine resolveAlong_link plain known ?_
      rw [if_neg (by simpa using fresh)]
      exact innerHypothesis taken

/-! ### Canonical paths -/

theorem normalFrom_of_plain {done : List String} (plain : ∀ name ∈ names, IsPlain name) :
    Path.normalFrom done names = done.reverse ++ names := by
  induction names generalizing done with
  | nil => simp [Path.normalFrom]
  | cons name rest ih =>
    obtain ⟨notUp, kept⟩ := plain name (by simp)
    unfold Path.normalFrom
    rw [if_neg (by simpa using notUp), if_pos kept,
      ih fun other member => plain other (by simp [member])]
    simp

/-- Plain names are normal already. -/
theorem normalNames_of_plain (plain : ∀ name ∈ names, IsPlain name) :
    Path.normalNames names = names :=
  normalFrom_of_plain plain

/-- Looking up the names of an entry meets no link before the entry. -/
theorem advance_ne_tooManyLinks
    (known : tree.root.at? (here.reverse ++ names) = some entry)
    (plain : ∀ name ∈ names, IsPlain name) (noLink : names ≠ [] → entry.isLink = false) :
    tree.advance onLink here names ≠ .error .tooManyLinks := by
  induction names generalizing here with
  | nil =>
    unfold advance
    split <;> simp
  | cons name rest ih =>
    obtain ⟨notUp, kept⟩ := plain name (by simp)
    have restPlain : ∀ other ∈ rest, IsPlain other :=
      fun other member => plain other (by simp [member])
    have onward : tree.root.at? ((name :: here).reverse ++ rest) = some entry := by
      rw [← known]
      simp
    have childNoLink : ∀ target, tree.root.at? (name :: here).reverse ≠ some (.link target) := by
      intro target link
      rw [Entry.at?_append, link] at onward
      cases rest with
      | nil =>
        cases onward
        cases noLink (by simp)
      | cons next rest => cases onward
    rcases cases_of_advance tree here name with
      ⟨next, moves⟩ | ⟨target, follows⟩ | ⟨fault, other, stops⟩
    · rw [advance_of_moves moves]
      cases moves with
      | up => exact absurd rfl notUp
      | stay dropped => rw [kept] at dropped; cases dropped
      | enter => exact ih onward restPlain fun _ => noLink (by simp)
    · exact absurd follows.known (childNoLink target)
    · rw [stops]
      exact fun same => other (Except.error.inj same)

theorem follow_ne_tooManyLinks (limit : Nat) (known : tree.root.at? names = some entry)
    (plain : ∀ name ∈ names, IsPlain name) (noLink : names ≠ [] → entry.isLink = false) :
    tree.follow limit [] names ≠ .error .tooManyLinks := by
  cases limit with
  | zero => exact advance_ne_tooManyLinks known plain noLink
  | succ limit => exact advance_ne_tooManyLinks known plain noLink

/-- A path whose walk ends at an entry is resolved to the names of the entry. -/
theorem resolve?_of_walk {there : List String}
    (walk : Walk tree links [] (tree.fullNames path) there)
    (known : tree.root.at? there.reverse = some entry)
    (plain : ∀ name ∈ there.reverse, IsPlain name)
    (noLink : there.reverse ≠ [] → entry.isLink = false) :
    tree.resolve? path = some (Path.ofRoot there.reverse) := by
  have ready : tree.Ready links (tree.root.linkCount + 1 + 1) [] :=
    ⟨List.nodup_nil, by simp, by simp, by simp⟩
  have ended : tree.lookup (Path.ofRoot there.reverse) ≠ .error .tooManyLinks := by
    unfold lookup
    split
    · simp
    · split
      · simp
      · exact follow_ne_tooManyLinks linkLimit known plain noLink
  unfold resolve?
  rw [resolveWith_of_walk walk ready]
  dsimp only
  rw [normalNames_of_plain plain]
  split
  · rename_i loops
    exact absurd loops ended
  · rfl

/-- What the names of a path lead to stands at plain names, and the path is resolved to these. -/
theorem resolve?_of_follow
    (found : tree.follow linkLimit [] (tree.fullNames path) = .ok (names, entry)) :
    tree.resolve? path = some (Path.ofRoot names) ∧ tree.root.at? names = some entry ∧
      ∀ name ∈ names, IsPlain name := by
  obtain ⟨links, there, same, walk, stands⟩ := follow_leads linkLimit firm_root found
  dsimp only at same stands
  subst same
  have plain : ∀ name ∈ there.reverse, IsPlain name :=
    fun name member => stands.plain name (List.mem_reverse.mp member)
  have noLink : there.reverse ≠ [] → entry.isLink = false :=
    fun nonempty => stands.noLink (by simpa using nonempty)
  exact ⟨resolve?_of_walk walk stands.found plain noLink, stands.found, plain⟩

/-- A path that leads somewhere holds no null character, and its names lead there. -/
theorem follow_of_lookup (looked : tree.lookup path = .ok found) :
    path.hasNull = false ∧ tree.follow linkLimit [] (tree.fullNames path) = .ok found := by
  unfold lookup at looked
  split at looked
  · cases looked
  · rename_i noNull
    split at looked
    · cases looked
    · exact ⟨Bool.eq_false_iff.mpr noNull, looked⟩

/-- What a path leads to stands at plain names, and the path is resolved to these. -/
theorem resolve?_of_lookup (found : tree.lookup path = .ok (names, entry)) :
    tree.resolve? path = some (Path.ofRoot names) ∧ tree.root.at? names = some entry ∧
      ∀ name ∈ names, IsPlain name :=
  resolve?_of_follow (follow_of_lookup found).2

/-- The names of an entry are a walk without links. -/
theorem walk_of_at?
    (known : tree.root.at? (here.reverse ++ names) = some entry)
    (plain : ∀ name ∈ names, IsPlain name) (noLink : entry.isLink = false) :
    Walk tree 0 here names (names.reverse ++ here) := by
  induction names generalizing here with
  | nil => exact .done
  | cons name rest ih =>
    have onward : tree.root.at? ((name :: here).reverse ++ rest) = some entry := by
      rw [← known]
      simp
    have walk := ih onward fun other member => plain other (by simp [member])
    rw [List.reverse_cons, List.append_assoc]
    rw [Entry.at?_append] at onward
    obtain ⟨child, childKnown, restKnown⟩ := Option.bind_eq_some_iff.mp onward
    refine .enter (plain name List.mem_cons_self) childKnown ?_ walk
    cases child with
    | link target =>
      cases rest with
      | nil =>
        cases restKnown
        exact noLink
      | cons next rest => cases restKnown
    | file bytes tree => rfl
    | directory entries => rfl

/-- The path of an entry itself is resolved already. -/
theorem resolve?_ofRoot (known : tree.root.at? names = some entry)
    (plain : ∀ name ∈ names, IsPlain name) (noLink : entry.isLink = false) :
    tree.resolve? (Path.ofRoot names) = some (Path.ofRoot names) := by
  have walk : Walk tree 0 [] names (names.reverse ++ []) := walk_of_at? known plain noLink
  rw [List.append_nil] at walk
  have resolved : tree.resolve? (Path.ofRoot names) = some (Path.ofRoot names.reverse.reverse) := by
    refine resolve?_of_walk walk ?_ ?_ fun _ => noLink
    · rwa [List.reverse_reverse]
    · rwa [List.reverse_reverse]
  rwa [List.reverse_reverse] at resolved

/-! ### Directories on the way -/

/-- Whoever goes along some names passes what the first of them lead to. -/
theorem advance_of_append
    (followed : ∀ here names more found, onLink here (names ++ more) = .ok found →
      ∃ middle, onLink here names = .ok middle) {here more : List String}
    (ran : tree.advance onLink here (names ++ more) = .ok found) :
    ∃ middle, tree.advance onLink here names = .ok middle := by
  induction names generalizing here with
  | nil =>
    cases known : tree.root.at? here.reverse with
    | some entry => exact ⟨(here.reverse, entry), by rw [advance, known]⟩
    | none => cases more <;> rw [List.nil_append, advance, known] at ran <;> cases ran
  | cons name rest ih =>
    rw [List.cons_append] at ran
    rcases cases_of_advance tree here name with
      ⟨next, moves⟩ | ⟨target, follows⟩ | ⟨fault, -, stops⟩
    · rw [advance_of_moves moves] at ran ⊢
      exact ih ran
    · rw [advance_of_follows follows, ← List.append_assoc] at ran
      rw [advance_of_follows follows]
      exact followed _ _ _ _ ran
    · rw [stops] at ran
      cases ran

theorem follow_of_append (limit : Nat) {here more : List String}
    (ran : tree.follow limit here (names ++ more) = .ok found) :
    ∃ middle, tree.follow limit here names = .ok middle := by
  induction limit generalizing here names more found with
  | zero => exact advance_of_append (fun _ _ _ _ impossible => by cases impossible) ran
  | succ limit ih => exact advance_of_append (fun _ _ _ _ => ih) ran

/-- The directory of what a path leads to is resolved. -/
theorem resolve?_parent_of_lookup (looked : tree.lookup path = .ok found) :
    path.parent.hasNull = false ∧ tree.resolve? path.parent ≠ none := by
  obtain ⟨noNull, followed⟩ := follow_of_lookup looked
  have whole : path.parent.names ++ path.names.getLast?.toList = path.names := by
    unfold Path.parent
    cases last : path.names.getLast? with
    | none => simp [List.getLast?_eq_none_iff.mp last]
    | some name => exact List.dropLast_append_getLast? name last
  have full : tree.fullNames path = tree.fullNames path.parent ++ path.names.getLast?.toList := by
    have sameAnchor : path.parent.isAbsolute = path.isAbsolute := rfl
    unfold fullNames
    rw [sameAnchor]
    split
    · exact whole.symm
    · rw [List.append_assoc, whole]
  rw [full] at followed
  obtain ⟨⟨names, entry⟩, along⟩ := follow_of_append linkLimit followed
  refine ⟨?_, by simp [(resolve?_of_follow along).1]⟩
  unfold Path.hasNull at noNull ⊢
  rw [List.any_eq_false] at noNull ⊢
  exact fun name member => noNull name (whole ▸ List.mem_append_left _ member)

/-! ### Canonical files -/

/-- A path that is the canonical one of a file. -/
def IsCanonicalFile (tree : FileTree) (path : Path) : Prop :=
  ∃ names entry, path = Path.ofRoot names ∧ tree.root.at? names = some entry ∧
    entry.isFile = true ∧ ∀ name ∈ names, IsPlain name

theorem IsCanonicalFile.resolve?_eq (canonical : tree.IsCanonicalFile path) :
    tree.resolve? path = some path := by
  obtain ⟨names, entry, rfl, known, isFile, plain⟩ := canonical
  have noLink : entry.isLink = false := by
    cases entry with
    | link target => cases isFile
    | file bytes tree => rfl
    | directory entries => rfl
  exact resolve?_ofRoot known plain noLink

theorem IsCanonicalFile.mem_located (canonical : tree.IsCanonicalFile path) :
    path ∈ tree.located := by
  obtain ⟨names, entry, rfl, known, _⟩ := canonical
  exact FileTree.mem_located known

/-- What leads to a file is resolved to the canonical path of the file. -/
theorem isCanonicalFile_of_passes {resolved : Path}
    (isFile : tree.passes Entry.isFile path = .ok true)
    (known : tree.resolve? path = some resolved) : tree.IsCanonicalFile resolved := by
  unfold passes at isFile
  split at isFile
  · rename_i names entry found
    obtain ⟨same, stands, plain⟩ := resolve?_of_lookup found
    rw [known] at same
    cases same
    exact ⟨names, entry, rfl, stands, by simpa using isFile, plain⟩
  · cases isFile
  · cases isFile

end FileTree
end ModuleAtlas
