import ModuleAtlas.Proofs.FileTree.Canonical

/-!
# Reading what was written

A file that has been written is found where it was written, with its bytes.  Putting a file at a
place leaves all directories directories and all other entries as they are, so the walk that found
the place takes the same way again and ends at the file.
-/

namespace ModuleAtlas
namespace Entry

/-! ## Putting a file at a place -/

/-- A file can stand at some names: no directory stands there, and all but the last name lead to
directories. -/
def Takes : Entry → List String → Prop
  | entry, [] => entry.isDirectory = false
  | .directory entries, name :: rest =>
    match entries.lookup name with
    | some entry => Takes entry rest
    | none => rest = []
  | _, _ :: _ => False

variable {names : List String}

theorem takes_of_at? {entry found : Entry}
    (known : entry.at? names = some found) (noDirectory : found.isDirectory = false) :
    entry.Takes names := by
  induction names generalizing entry with
  | nil =>
    cases known
    exact noDirectory
  | cons name rest ih =>
    rw [at?_cons, Option.bind_eq_some_iff] at known
    obtain ⟨child, childKnown, restKnown⟩ := known
    cases entry with
    | directory entries =>
      rw [Takes, show entries.lookup name = some child from childKnown]
      exact ih restKnown
    | file bytes source => cases childKnown
    | link target => cases childKnown

variable {entries : List (String × Entry)}

theorem takes_of_missing {entry : Entry}
    {name : String} (known : entry.at? names = some (.directory entries))
    (missing : entries.lookup name = none) :
    entry.Takes (names ++ [name]) := by
  induction names generalizing entry with
  | nil =>
    cases known
    rw [List.nil_append, Takes, missing]
  | cons first rest ih =>
    rw [at?_cons, Option.bind_eq_some_iff] at known
    obtain ⟨child, childKnown, restKnown⟩ := known
    cases entry with
    | directory others =>
      rw [List.cons_append, Takes, show others.lookup first = some child from childKnown]
      exact ih restKnown
    | file bytes source => cases childKnown
    | link target => cases childKnown

/-- No directory stands where a file can. -/
theorem Takes.ne_directory {entry : Entry} (takes : entry.Takes names)
    (entries : List (String × Entry)) :
    entry.at? names ≠ some (.directory entries) := by
  induction names generalizing entry with
  | nil =>
    intro known
    cases known
    cases takes
  | cons name rest ih =>
    intro known
    rw [at?_cons, Option.bind_eq_some_iff] at known
    obtain ⟨child, childKnown, restKnown⟩ := known
    cases entry with
    | directory others =>
      rw [Takes, show others.lookup name = some child from childKnown] at takes
      exact ih takes restKnown
    | file bytes source => cases childKnown
    | link target => cases childKnown

theorem lookup_cons_eq (name other : String) (entry : Entry) (rest : List (String × Entry)) :
    ((other, entry) :: rest).lookup name =
      if name = other then some entry else rest.lookup name := by
  rw [List.lookup_cons]
  by_cases same : name = other
  · simp [same]
  · rw [beq_eq_false_iff_ne.mpr same, if_neg same]

/-- Changing one entry leaves all others. -/
theorem lookup_alter {name : String} {change : Option Entry → Option Entry}
    {made : Entry}
    (makes : change (entries.lookup name) = some made) (other : String) :
    (alter name change entries).lookup other =
      if other = name then some made else entries.lookup other := by
  induction entries with
  | nil =>
    rw [List.lookup_nil] at makes
    simp only [alter, makes, lookup_cons_eq, List.lookup_nil]
  | cons first rest ih =>
    obtain ⟨firstName, firstEntry⟩ := first
    rw [alter]
    by_cases here : firstName = name
    · subst here
      rw [lookup_cons_eq, if_pos rfl] at makes
      simp only [beq_self_eq_true, if_true, makes, lookup_cons_eq]
      by_cases same : other = firstName <;> simp [same]
    · rw [lookup_cons_eq, if_neg (Ne.symm here)] at makes
      rw [if_neg (by simpa using here), lookup_cons_eq, lookup_cons_eq,
        ih makes]
      by_cases same : other = firstName
      · subst same
        simp [here]
      · simp [same]

/-- An entry differs from another one only in what stands at a place: there is a new entry there,
all directories are still directories, and all other entries are as they were. -/
structure Puts (old new : Entry) (place : List String) (placed : Entry) : Prop where
  there : new.at? place = some placed
  directory : ∀ names entries, names ≠ place → old.at? names = some (.directory entries) →
    ∃ others, new.at? names = some (.directory others)
  other : ∀ names entry, names ≠ place → old.at? names = some entry → entry.isDirectory = false →
    new.at? names = some entry

/-- What is put into an entry of a directory is put into the directory. -/
theorem Puts.alter {name : String} {rest : List String}
    {child placed : Entry} {change : Option Entry → Option Entry}
    (makes : change (entries.lookup name) = some child) (placedThere : child.at? rest = some placed)
    (puts : ∀ before, entries.lookup name = some before → before.Puts child rest placed) :
    (Entry.directory entries).Puts (.directory (alter name change entries)) (name :: rest)
      placed where
  there := by
    rw [at?_cons, child?, lookup_alter makes, if_pos rfl]
    exact placedThere
  directory names inner apart known := by
    cases names with
    | nil => exact ⟨_, rfl⟩
    | cons first others =>
      rw [at?_cons, child?, Option.bind_eq_some_iff] at known
      obtain ⟨before, beforeKnown, restKnown⟩ := known
      rw [at?_cons, child?, lookup_alter makes]
      by_cases same : first = name
      · subst same
        rw [if_pos rfl, Option.bind_some]
        exact (puts before beforeKnown).directory others inner
          (fun equal => apart (congrArg _ equal)) restKnown
      · rw [if_neg same, beforeKnown]
        exact ⟨inner, restKnown⟩
  other names entry apart known noDirectory := by
    cases names with
    | nil =>
      cases known
      cases noDirectory
    | cons first others =>
      rw [at?_cons, child?, Option.bind_eq_some_iff] at known
      obtain ⟨before, beforeKnown, restKnown⟩ := known
      rw [at?_cons, child?, lookup_alter makes]
      by_cases same : first = name
      · subst same
        rw [if_pos rfl, Option.bind_some]
        exact (puts before beforeKnown).other others entry
          (fun equal => apart (congrArg _ equal)) restKnown noDirectory
      · rw [if_neg same, beforeKnown]
        exact restKnown

/-- A file is put wherever one can stand. -/
theorem Takes.puts {old : Entry} {place : List String} (takes : old.Takes place) (placed : Entry) :
    ∃ new, changeAt (fun _ => some placed) place (some old) = some new ∧
      old.Puts new place placed := by
  induction place generalizing old with
  | nil =>
    have noChild : ∀ name rest, old.at? (name :: rest) = none := by
      intro name rest
      cases old with
      | directory entries => cases takes
      | file bytes source => rfl
      | link target => rfl
    refine ⟨placed, rfl, rfl, ?_, ?_⟩
    · intro names entries apart known
      cases names with
      | nil => exact absurd rfl apart
      | cons name rest => rw [noChild] at known; cases known
    · intro names entry apart known _
      cases names with
      | nil => exact absurd rfl apart
      | cons name rest => rw [noChild] at known; cases known
  | cons name rest ih =>
    cases old with
    | file bytes source => cases takes
    | link target => cases takes
    | directory entries =>
      rw [Takes] at takes
      refine ⟨_, rfl, ?_⟩
      cases found : entries.lookup name with
      | none =>
        rw [found] at takes
        subst takes
        have makes : changeAt (fun _ => some placed) [] (entries.lookup name) =
            some placed := rfl
        refine .alter makes rfl fun before known => ?_
        rw [found] at known
        cases known
      | some before =>
        rw [found] at takes
        obtain ⟨child, changed, puts⟩ := ih takes
        have makes : changeAt (fun _ => some placed) rest (entries.lookup name) =
            some child := by
          rw [found]
          exact changed
        refine .alter makes puts.there fun other known => ?_
        rw [found] at known
        cases known
        exact puts

end Entry

namespace FileTree

/-! ## The place of a file -/

/-- A file can be put at a place, and no link stands there but at the root. -/
structure IsPlace (tree : FileTree) (place : List String) : Prop where
  takes : tree.root.Takes place
  noLink : place ≠ [] → ∀ target, tree.root.at? place ≠ some (.link target)

section

variable {tree : FileTree} {place here names : List String}

/-- All that the walk to the place of a file can do at a name: it moves on, follows a link, or ends
at the last name, which is missing in its directory. -/
theorem cases_of_placeAlong
    {onLink : List String → List String → Except WriteFault (List String)} {name : String}
    {rest : List String} (ran : tree.placeAlong onLink here (name :: rest) = .ok place) :
    (∃ next, tree.Moves here name next ∧ tree.placeAlong onLink next rest = .ok place) ∨
      (∃ target, tree.Follows here name target ∧
        onLink (linkBase target here) ((Path.ofText target).names ++ rest) = .ok place) ∨
      ∃ entries, tree.root.at? here.reverse = some (.directory entries) ∧ IsPlain name ∧
        name.utf8ByteSize ≤ nameLimit ∧ entries.lookup name = none ∧ rest = [] ∧
        place = (name :: here).reverse := by
  unfold placeAlong at ran
  split at ran
  · rename_i entries known
    split at ran
    · rename_i isUp
      rw [beq_iff_eq] at isUp
      subst isUp
      exact .inl ⟨_, .up known, ran⟩
    rename_i notUp
    split at ran
    · rename_i dropped
      exact .inl ⟨_, .stay (by simpa using dropped) known, ran⟩
    rename_i kept
    split at ran
    · cases ran
    rename_i short
    rw [Nat.not_lt] at short
    have plain : IsPlain name := ⟨by simpa using notUp, by simpa using kept⟩
    have child := at?_reverse_cons known name
    split at ran
    · rename_i missing
      split at ran
      · rename_i last
        exact .inr (.inr ⟨entries, known, plain, short, missing, List.isEmpty_iff.mp last,
          (Except.ok.inj ran).symm⟩)
      · cases ran
    · rename_i target childKnown
      rw [childKnown] at child
      dsimp only at ran
      split at ran
      · cases ran
      · rename_i given
        exact .inr (.inl ⟨target, ⟨plain, short, child, Bool.eq_false_iff.mpr given⟩, ran⟩)
    · rename_i entry notLink childKnown
      rw [childKnown] at child
      exact .inl ⟨_, .enter plain short child (Entry.isLink_eq_false_iff.mpr notLink), ran⟩
  · cases ran
  · cases ran

theorem isPlace_of_placeAlong
    {onLink : List String → List String → Except WriteFault (List String)}
    (followed : ∀ here names, tree.Firm here → onLink here names = .ok place → tree.IsPlace place)
    (firm : tree.Firm here) (ran : tree.placeAlong onLink here names = .ok place) :
    tree.IsPlace place := by
  induction names generalizing here with
  | nil =>
    unfold placeAlong at ran
    split at ran
    · cases ran
    · rename_i entry other known
      cases ran
      refine ⟨Entry.takes_of_at? known ?_, fun nonempty target isLink => ?_⟩
      · cases entry with
        | directory entries => exact absurd rfl (other entries)
        | file bytes source => rfl
        | link target => rfl
      · have noLink := firm.noLink (fun empty => nonempty (by rw [empty]; rfl)) _ isLink
        cases noLink
    · cases ran
  | cons name rest ih =>
    rcases cases_of_placeAlong ran with
      ⟨next, moves, onward⟩ | ⟨target, follows, onward⟩ | ⟨entries, known, -, -, missing, -, rfl⟩
    · exact ih (firm.move moves) onward
    · exact followed _ _ (firm.linkBase target) onward
    · refine ⟨?_, fun _ target isLink => ?_⟩
      · rw [List.reverse_cons]
        exact Entry.takes_of_missing known missing
      · rw [at?_reverse_cons known, missing] at isLink
        cases isLink

theorem isPlace_of_placeFrom {links : Nat} (firm : tree.Firm here)
    (ran : tree.placeFrom links here names = .ok place) : tree.IsPlace place := by
  induction links generalizing here names with
  | zero =>
    refine isPlace_of_placeAlong (fun _ _ _ impossible => ?_) firm ran
    cases impossible
  | succ links ih =>
    exact isPlace_of_placeAlong (fun _ _ firm ran => ih firm ran) firm ran

/-! ## The way to the place -/

variable {after : FileTree} {bytes : ByteArray} {source : Option Node}

variable (isPlace : tree.IsPlace place)
  (puts : tree.root.Puts after.root place (.file bytes source))

include isPlace puts

/-- Directories stay directories, so a walk gets past the same names. -/
theorem Moves.of_puts {name : String} {next : List String}
    (moves : tree.Moves here name next) : after.Moves here name next := by
  have directory : ∀ {names entries}, tree.root.at? names = some (.directory entries) →
      ∃ others, after.root.at? names = some (.directory others) := by
    intro names entries known
    refine puts.directory names entries ?_ known
    rintro rfl
    exact isPlace.takes.ne_directory entries known
  cases moves with
  | up known =>
    obtain ⟨others, knownAfter⟩ := directory known
    exact .up knownAfter
  | stay dropped known =>
    obtain ⟨others, knownAfter⟩ := directory known
    exact .stay dropped knownAfter
  | @enter _ entry plain short known noLink =>
    by_cases last : (name :: here).reverse = place
    · subst last
      exact .enter plain short puts.there rfl
    · cases entry with
      | directory entries =>
        obtain ⟨others, knownAfter⟩ := directory known
        exact .enter plain short knownAfter rfl
      | file => exact .enter plain short (puts.other _ _ last known rfl) rfl
      | link => cases noLink

/-- The place is not at a link, so a walk follows the same links. -/
theorem Follows.of_puts {name target : String}
    (follows : tree.Follows here name target) : after.Follows here name target := by
  have elsewhere : (name :: here).reverse ≠ place := by
    rintro rfl
    exact isPlace.noLink (by simp) target follows.known
  exact ⟨follows.plain, follows.short, puts.other _ _ elsewhere follows.known rfl, follows.given⟩

/-- With a file at the place that a walk has come to, the walk comes to the file. -/
theorem advance_of_placeAlong
    {onPlace : List String → List String → Except WriteFault (List String)}
    {onLink : List String → List String → Except LookupFault Located}
    (followed : ∀ here names, tree.Firm here → onPlace here names = .ok place →
      onLink here names = .ok (place, .file bytes source)) (firm : tree.Firm here)
    (ran : tree.placeAlong onPlace here names = .ok place) :
    after.advance onLink here names = .ok (place, .file bytes source) := by
  induction names generalizing here with
  | nil =>
    unfold placeAlong at ran
    split at ran
    · cases ran
    · cases ran
      rw [advance, puts.there]
    · cases ran
  | cons name rest ih =>
    rcases cases_of_placeAlong ran with
      ⟨next, moves, onward⟩ | ⟨target, follows, onward⟩ | ⟨_, -, plain, short, -, rfl, rfl⟩
    · rw [advance_of_moves (moves.of_puts isPlace puts)]
      exact ih (firm.move moves) onward
    · rw [advance_of_follows (follows.of_puts isPlace puts)]
      exact followed _ _ (firm.linkBase target) onward
    · rw [advance_of_moves (.enter plain short puts.there rfl), advance, puts.there]

theorem follow_of_placeFrom {links : Nat}
    (firm : tree.Firm here) (ran : tree.placeFrom links here names = .ok place) :
    after.follow links here names = .ok (place, .file bytes source) := by
  induction links generalizing here names with
  | zero =>
    refine advance_of_placeAlong isPlace puts (fun _ _ _ impossible => ?_) firm ran
    cases impossible
  | succ links ih =>
    exact advance_of_placeAlong isPlace puts (fun _ _ firm ran => ih firm ran) firm ran

end

/-- A file that has been written is read with the bytes that were written. -/
theorem bytes?_of_write {tree after : FileTree} {path : Path} {bytes : ByteArray}
    (written : tree.write path bytes = .ok after) :
    after.bytes? path = some bytes := by
  unfold write at written
  cases found : tree.writePlace path with
  | error fault => rw [found] at written; cases written
  | ok place =>
    rw [found] at written
    cases written
    unfold writePlace at found
    split at found
    · cases found
    rename_i noNull
    split at found
    · cases found
    rename_i short
    have isPlace := isPlace_of_placeFrom firm_root found
    obtain ⟨root, changed, puts⟩ := isPlace.takes.puts (.file bytes none)
    have after_eq : tree.put place (.file bytes none) = { tree with root := root } := by
      rw [put, changed]
    rw [after_eq]
    have looked : ({ tree with root := root } : FileTree).lookup path =
        .ok (place, .file bytes none) := by
      rw [lookup, if_neg noNull, if_neg short]
      exact follow_of_placeFrom isPlace puts firm_root found
    rw [bytes?, looked]

end FileTree
end ModuleAtlas
