import Mathlib.Data.List.Perm.Basic
import Mathlib.Data.Option.Basic
import ModuleAtlas.Command.Run
import ModuleAtlas.Proofs.FileTree.Writing
import ModuleAtlas.Proofs.Settings.Loading

/-!
# Saving settings

Settings that are saved are loaded again, and the rest of the document stays.  The reader of the
format is only asked to give back the document that was written, up to the order of keys: it is the
names and the shapes of the entries, chosen in one place for writing and in another for reading,
that have to fit.  Changes that are saved one after the other add up, the last one of each setting
counts.
-/

namespace ModuleAtlas

open ModuleAtlas.Task (Settles settles_pure settles_fail settles_note settles_files)

namespace Toml

/-! ## Values up to the order of keys -/

/-- Two values are the same up to the order of the keys in tables. -/
inductive Same : Toml → Toml → Prop where
  | refl (value : Toml) : Same value value
  | array {items others : List Toml} (length : items.length = others.length)
      (each : ∀ (position : Nat) (item other : Toml), items[position]? = some item →
        others[position]? = some other → Same item other) :
      Same (.array items) (.array others)
  | table {entries others : List (String × Toml)}
      (keys : ∀ key, Keyed.find? key entries = none ↔ Keyed.find? key others = none)
      (each : ∀ key value other, Keyed.find? key entries = some value →
        Keyed.find? key others = some other → Same value other) :
      Same (.table entries) (.table others)

/-- Two entries are both missing, or both there with the same value. -/
abbrev SameEntry : Option Toml → Option Toml → Prop := Option.Rel Same

theorem SameEntry.refl (entry : Option Toml) : SameEntry entry entry := by
  cases entry with
  | none => exact .none
  | some value => exact .some (.refl value)

theorem SameEntry.exists_some {value : Toml} {entry : Option Toml}
    (same : SameEntry (some value) entry) :
    ∃ other, entry = some other ∧ Same value other := by
  cases same with
  | some values => exact ⟨_, rfl, values⟩

variable {other : Toml}

theorem Same.eq_integer {number : Int} (same : Same (.integer number) other) :
    other = .integer number := by
  cases same
  rfl

theorem Same.eq_string {text : String} (same : Same (.string text) other) :
    other = .string text := by
  cases same
  rfl

/-- What is the same as a table is a table with the same entries. -/
theorem Same.exists_table {entries : List (String × Toml)} (same : Same (.table entries) other) :
    ∃ others, other = .table others ∧
      ∀ key, SameEntry (Keyed.find? key entries) (Keyed.find? key others) := by
  cases same with
  | refl => exact ⟨entries, rfl, fun key => .refl _⟩
  | @table _ others keys each =>
    refine ⟨others, rfl, fun key => ?_⟩
    cases found : Keyed.find? key entries with
    | none =>
      rw [(keys key).mp found]
      exact .none
    | some value =>
      cases otherFound : Keyed.find? key others with
      | none =>
        rw [(keys key).mpr otherFound] at found
        cases found
      | some other => exact .some (each key value other found otherFound)

/-- The items of the same lists are the same, one by one. -/
theorem Same.exists_array {items : List Toml} (same : Same (.array items) other) :
    ∃ others, other = .array others ∧ List.Forall₂ Same items others := by
  cases same with
  | refl => exact ⟨items, rfl, List.forall₂_same.mpr fun item _ => .refl item⟩
  | @array _ others length each =>
    refine ⟨others, rfl, List.forall₂_iff_get.mpr ⟨length, fun position inside otherInside => ?_⟩⟩
    exact each position _ _ (List.getElem?_eq_getElem inside) (List.getElem?_eq_getElem otherInside)

end Toml

namespace Settings

open Toml (Same SameEntry)

/-! ## What was stored is read -/

/-- Settings that loading can give: positive limits, and names of directories in order without
repetition. -/
structure IsStorable (settings : Settings) : Prop where
  maxDepth : 0 < settings.maxDepth
  maxProperties : 0 < settings.maxProperties
  collapseThreshold : 0 < settings.collapseThreshold
  maxNodes : 0 < settings.maxNodes
  dependencyDirs : settings.dependencyDirs.Pairwise (· < ·)

/-- The text that is written for a document is read as the document. -/
def ReadsBack (document : Document) : Prop :=
  ∀ text, Toml.render document = .ok text →
    ∃ entries, Toml.parse (Text.unifyNewlines text.toList) = .ok (.table entries) ∧
      Same (.table document) (.table entries)

theorem sortedSet_of_pairwise {texts : List String} (sorted : texts.Pairwise (· < ·)) :
    Text.sortedSet texts = texts := by
  have found := Text.pairwise_sortedSet texts
  have nodup : ∀ {list : List String}, list.Pairwise (· < ·) → list.Nodup :=
    fun ordered => ordered.imp fun below => String.ne_of_lt below
  have perm : (Text.sortedSet texts).Perm texts :=
    (List.perm_ext_iff_of_nodup (nodup found) (nodup sorted)).mpr fun _ => Text.mem_sortedSet
  exact perm.eq_of_pairwise
    (fun _ _ _ _ below above => absurd (String.lt_trans below above) (String.lt_irrefl _))
    found sorted

section

variable {settings : Settings} {document entries : Document}

/-- Storing settings replaces the two sections and leaves all other entries. -/
theorem find?_store (settings : Settings) (document : Document) :
    Keyed.find? simplifierSection (settings.store document) = some settings.simplifierTable ∧
    Keyed.find? graphSection (settings.store document) = some settings.graphTable ∧
    ∀ key, key ≠ simplifierSection → key ≠ graphSection →
      Keyed.find? key (settings.store document) = Keyed.find? key document := by
  unfold store
  refine ⟨?_, ?_, fun key notSimplifier notGraph => ?_⟩
  · rw [Keyed.find?_put, Keyed.find?_put]
    rfl
  · rw [Keyed.find?_put]
    rfl
  · rw [Keyed.find?_put, Keyed.find?_put, beq_eq_false_iff_ne.mpr notGraph,
      beq_eq_false_iff_ne.mpr notSimplifier]
    rfl

theorem sectionOf_of_find? {name key : String} {inner : List (String × Toml)} {value : Toml}
    (found : Keyed.find? name document = some (.table inner))
    (present : Keyed.find? key inner = some value) :
    sectionOf document name = .table inner := by
  have given : (Toml.table inner).isGiven = true := by
    cases inner with
    | nil => cases present
    | cons first rest => rfl
  rw [sectionOf, found]
  simp only [given, if_true]

theorem filterMap_wrapperRule? {rules : List (String × String)} {items : List Toml}
    (same : List.Forall₂ Same (rules.map ruleTable) items) :
    items.filterMap wrapperRule? = rules := by
  induction rules generalizing items with
  | nil =>
    cases same
    rfl
  | cons rule rest ih =>
    cases same with
    | cons first others =>
      obtain ⟨entries, rfl, sameEntries⟩ := first.exists_table
      obtain ⟨_, pattern, samePattern⟩ := (sameEntries "pattern").exists_some
      obtain ⟨_, replacement, sameReplacement⟩ := (sameEntries "replace").exists_some
      rw [samePattern.eq_string] at pattern
      rw [sameReplacement.eq_string] at replacement
      rw [List.filterMap_cons_some
        (wrapperRule?_eq_some.mpr ⟨entries, rfl, pattern, replacement⟩),
        ih others]

theorem eq_map_string {texts : List String} {items : List Toml}
    (same : List.Forall₂ Same (texts.map .string) items) :
    items = texts.map .string := by
  induction texts generalizing items with
  | nil =>
    cases same
    rfl
  | cons text rest ih =>
    cases same with
    | cons first others => rw [first.eq_string, ih others, List.map_cons]

variable {entry : Option Toml}

/-- A limit that stands in a section under some key is read. -/
theorem limit_of_same {number : Int} (positive : 0 < number)
    (same : SameEntry (some (.integer number)) entry) : entry.bind limit? = some number := by
  obtain ⟨_, rfl, sameValue⟩ := same.exists_some
  rw [sameValue.eq_integer, Option.bind_some, limit?_eq_some]
  exact ⟨rfl, positive⟩

theorem texts_of_same {texts : List String}
    (same : SameEntry (some (.array (texts.map .string))) entry) :
    entry.bind Toml.textList? = some texts := by
  obtain ⟨_, rfl, sameValue⟩ := same.exists_some
  obtain ⟨items, rfl, each⟩ := sameValue.exists_array
  rw [eq_map_string each, Option.bind_some, textList?_eq_some]

theorem rules_of_same {rules : List (String × String)}
    (same : SameEntry (some (.array (rules.map ruleTable))) entry) :
    entry.bind listedRules? = some rules := by
  obtain ⟨_, rfl, sameValue⟩ := same.exists_some
  obtain ⟨items, rfl, each⟩ := sameValue.exists_array
  rw [Option.bind_some, listedRules?, filterMap_wrapperRule? each]

/-- Two sections that are the same as those of some settings set all of these. -/
theorem override_setBy {simplifier graph : List (String × Toml)} (storable : settings.IsStorable)
    (sameSimplifier : Same settings.simplifierTable (.table simplifier))
    (sameGraph : Same settings.graphTable (.table graph)) (others : Settings) :
    others.override (setBy simplifier graph) = settings := by
  obtain ⟨_, same, limits⟩ := sameSimplifier.exists_table
  cases same
  obtain ⟨_, same, lists⟩ := sameGraph.exists_table
  cases same
  have maxDepth := limit_of_same storable.maxDepth (limits "max_depth")
  have maxProperties := limit_of_same storable.maxProperties (limits "max_properties")
  have collapseThreshold :=
    limit_of_same storable.collapseThreshold (limits "collapse_threshold")
  have maxNodes := limit_of_same storable.maxNodes (limits "max_nodes")
  have rules := rules_of_same (limits "wrappers")
  have directories := texts_of_same (lists "dependency_dirs")
  have ignores := texts_of_same (lists "ignore")
  simp only [override, setBy, maxDepth, maxProperties, collapseThreshold, maxNodes, rules,
    directories, ignores, Option.getD_some, Option.map_some,
    sortedSet_of_pairwise storable.dependencyDirs]

end

section

variable {σ : Type} {tree : FileTree} {good : σ → Prop} {path : Path} {settings : Settings}
  {document entries : Document}

/-- A file holds one document only. -/
theorem Holds.unique {other : Document} (holds : Holds tree path document)
    (others : Holds tree path other) :
    document = other := by
  have first : (readDocument path).outcomeFrom tree () = .ok document :=
    (holds.settles : Settles _ (fun _ => True) _ _).outcomeFrom_eq trivial
  have second : (readDocument path).outcomeFrom tree () = .ok other :=
    (others.settles : Settles _ (fun _ => True) _ _).outcomeFrom_eq trivial
  exact Except.ok.inj (first.symm.trans second)

/-- A file that holds what was stored is loaded as the settings that were stored. -/
theorem settles_load_of_same (storable : settings.IsStorable) (holds : Holds tree path entries)
    (same : Same (.table (settings.store document)) (.table entries)) :
    Settles tree good (load path : Task σ Settings) (.ok settings) := by
  obtain ⟨_, equal, sameEntries⟩ := same.exists_table
  cases equal
  obtain ⟨simplifierStored, graphStored, _⟩ := find?_store settings document
  have simplifierEntry := sameEntries simplifierSection
  have graphEntry := sameEntries graphSection
  rw [simplifierStored] at simplifierEntry
  rw [graphStored] at graphEntry
  obtain ⟨_, simplifierFound, sameSimplifier⟩ := simplifierEntry.exists_some
  obtain ⟨_, graphFound, sameGraph⟩ := graphEntry.exists_some
  obtain ⟨simplifier, rfl, limits⟩ := sameSimplifier.exists_table
  obtain ⟨graph, rfl, lists⟩ := sameGraph.exists_table
  obtain ⟨_, limit, _⟩ := (limits "max_depth").exists_some
  obtain ⟨_, list, _⟩ := (lists "ignore").exists_some
  have overrides : Settles tree good (readOverrides entries : Task σ Overrides)
      (.ok (setBy simplifier graph)) :=
    settles_readOverrides (sectionOf_of_find? simplifierFound limit)
      (sectionOf_of_find? graphFound list)
  rw [← override_setBy storable sameSimplifier sameGraph Settings.default]
  exact holds.settles.bind (overrides.bind (settles_pure _))

variable {saved : Saved}

/-- A document that is written is the file's text afterwards. -/
theorem render_of_writeDocument {files : FileTree}
    (wrote : writeDocument files path document = .ok saved) (done : saved.outcome = .ok true) :
    ∃ text, Toml.render document = .ok text ∧ files.write path text.toUTF8 = .ok saved.files := by
  unfold writeDocument at wrote
  cases rendered : Toml.render document with
  | ok text =>
    rw [rendered] at wrote
    cases place : files.write path text.toUTF8 with
    | ok after =>
      simp only [place] at wrote
      cases wrote
      exact ⟨text, rfl, place⟩
    | error fault =>
      simp only [place] at wrote
      cases wrote
  | error fault =>
    rw [rendered] at wrote
    cases place : files.write path ByteArray.empty with
    | ok after =>
      simp only [place] at wrote
      cases wrote
      cases done
    | error fault =>
      simp only [place] at wrote
      cases wrote

/-- Settings have been saved when the document with them in it has been written. -/
theorem written_of_save {journal after : Journal σ} (holds : Holds tree path document)
    (ran : (save settings path : Task σ Saved) tree journal = (.ok saved, after))
    (done : saved.outcome = .ok true) :
    ∃ text, Toml.render (settings.store document) = .ok text ∧
      ∃ made : FileTree, made.write path text.toUTF8 = .ok saved.files := by
  have settles : Settles tree (fun _ : σ => True) (readDocument path) (.ok document) :=
    holds.settles
  unfold save at ran
  obtain ⟨between, read, _⟩ := settles journal trivial
  have asked : Task.files tree between = (.ok tree, between) := rfl
  rw [Task.bind_of_ok read, Task.bind_of_ok asked] at ran
  cases written : (tree.makeDirectories? path.parent).map fun files =>
      writeDocument files path (settings.store document) with
  | none =>
    rw [written] at ran
    cases ran
    cases done
  | some result =>
    rw [written] at ran
    cases result with
    | error fault =>
      cases ran
      cases done
    | ok stored =>
      cases ran
      obtain ⟨made, _, wrote⟩ := Option.map_eq_some_iff.mp written
      obtain ⟨text, rendered, place⟩ := render_of_writeDocument wrote done
      exact ⟨text, rendered, made, place⟩

/-- Settings are saved when the directory can be made and the document can be written. -/
theorem settles_save {made after : FileTree} {text : String} (holds : Holds tree path document)
    (directory : tree.makeDirectories? path.parent = some made)
    (rendered : Toml.render (settings.store document) = .ok text)
    (wrote : made.write path text.toUTF8 = .ok after) :
    Settles tree good (save settings path) (.ok ⟨after, .ok true⟩) := by
  have written : writeDocument made path (settings.store document) = .ok ⟨after, .ok true⟩ := by
    simp only [writeDocument, rendered, wrote, bind, pure, Except.bind, Except.pure]
  unfold save
  refine holds.settles.bind (settles_files.bind ?_)
  simp only [directory, Option.map_some, written]
  exact settles_pure _

/-- A document that has been written is held by the file afterwards. -/
theorem exists_holds_of_write {after : FileTree} {text : String} (readsBack : ReadsBack document)
    (rendered : Toml.render document = .ok text) (wrote : tree.write path text.toUTF8 = .ok after) :
    ∃ entries, Holds after path entries ∧ Same (.table document) (.table entries) := by
  obtain ⟨entries, parsed, same⟩ := readsBack text rendered
  have found : after.text? path = some (Text.unifyNewlines text.toList) := by
    simp only [FileTree.text?, FileTree.bytes?_of_write wrote, Text.Utf8.decode?_toUTF8,
      Option.bind_eq_bind, Option.bind_some, Option.pure_def]
  exact ⟨entries, .read found parsed, same⟩

/-- What saving leaves in the file: a document with the same entries outside the two sections, from
which the settings are loaded again. -/
structure Keeps (settings : Settings) (document : Document) (path : Path) (files : FileTree)
    (entries : Document) : Prop where
  holds : Holds files path entries
  others : ∀ key, key ≠ simplifierSection → key ≠ graphSection →
    SameEntry (Keyed.find? key document) (Keyed.find? key entries)
  loads : ∀ {σ : Type} (good : σ → Prop),
    Settles files good (load path : Task σ Settings) (.ok settings)

/-- Settings that are saved are in the file, besides everything it held before. -/
theorem exists_keeps_of_save {journal after : Journal σ} (storable : settings.IsStorable)
    (holds : Holds tree path document) (readsBack : ReadsBack (settings.store document))
    (ran : (save settings path : Task σ Saved) tree journal = (.ok saved, after))
    (done : saved.outcome = .ok true) :
    ∃ entries, Keeps settings document path saved.files entries := by
  obtain ⟨text, rendered, made, wrote⟩ := written_of_save holds ran done
  obtain ⟨entries, holdsAfter, same⟩ := exists_holds_of_write readsBack rendered wrote
  refine ⟨entries, holdsAfter, fun key notSimplifier notGraph => ?_,
    fun _ => settles_load_of_same storable holdsAfter same⟩
  obtain ⟨_, equal, sameEntries⟩ := same.exists_table
  cases equal
  have entry := sameEntries key
  rwa [(find?_store settings document).2.2 key notSimplifier notGraph] at entry

/-- Settings that have been loaded can be stored. -/
theorem storable_of_reads (reads : Reads document settings) : settings.IsStorable := by
  obtain ⟨maxDepth, maxProperties, collapseThreshold, maxNodes⟩ := reads.positive
  have sorted : default.dependencyDirs.Pairwise (· < ·) := by decide
  exact ⟨maxDepth, maxProperties, collapseThreshold, maxNodes, reads.dependencyDirs.pairwise sorted⟩

/-- Whatever a load from one state answers, it answers from every state, and it has read a document
that the file holds. -/
theorem settles_of_load {state : σ} (loaded : (load path).outcomeFrom tree state = .ok settings) :
    settings.IsStorable ∧ (∃ document, Holds tree path document) ∧
      ∀ {τ : Type} (good : τ → Prop),
        Settles tree good (load path : Task τ Settings) (.ok settings) := by
  by_cases breaks : Breaks tree path
  · obtain ⟨failure, settles⟩ : Stops tree (fun _ : σ => True) (load path) := breaks.stops
    rw [settles.outcomeFrom_eq trivial] at loaded
    cases loaded
  · obtain ⟨document, found, holds, reads, settles⟩ := settles_load breaks
    rw [(settles fun _ => True).outcomeFrom_eq trivial] at loaded
    cases loaded
    exact ⟨storable_of_reads reads, ⟨document, holds⟩, settles⟩

end

end Settings

namespace Command

open Settings (Holds IsStorable ReadsBack)

/-! ## Changes one after the other -/

/-- A command line asks for a change of the stored settings, with options. -/
def Asks (arguments : List String) (given : Arguments OptionId) : Prop :=
  ∃ program rest start more,
    readStart arguments = .ok (.command program .settings rest) ∧
    parseOptions [helpForm] false rest = .ok start ∧ start.first? [.help] = none ∧
    start.others = "set" :: more ∧
    parseOptions changeForms true more = .ok given ∧ given.first? [.help] = none

/-- A limit is the last value of an option, and there is none when the option is not given. -/
def IsLimitOf (given : Arguments OptionId) (id : OptionId) (limit : Option Int) : Prop :=
  (given.value? id).map limit? = limit.map some

/-- A change is what the options of a command line ask for. -/
structure IsChange (given : Arguments OptionId) (change : Overrides) : Prop where
  maxDepth : IsLimitOf given .maxDepth change.maxDepth
  maxProperties : IsLimitOf given .maxProperties change.maxProperties
  collapseThreshold : IsLimitOf given .collapseThreshold change.collapseThreshold
  maxNodes : IsLimitOf given .maxNodes change.maxNodes
  wrapperRules : change.wrapperRules = none
  dependencyDirs : change.dependencyDirs = none
  extraIgnores : change.extraIgnores =
    if (given.values .ignore).isEmpty then none else some (given.values .ignore)

variable {text : String} {document : Settings.Document} {given : Arguments OptionId}

theorem limit?_positive {value : Int} (found : limit? text = some value) : 0 < value := by
  unfold limit? at found
  split at found
  · simpa using (Option.filter_eq_some_iff.mp found).2
  · cases found

theorem yields_limitOf (given : Arguments OptionId) (id : OptionId) :
    Yields (limitOf given id) (IsLimitOf given id) := by
  unfold limitOf IsLimitOf
  cases given.value? id with
  | none => exact yields_ok rfl
  | some text =>
    dsimp only
    split
    · rename_i value found
      exact yields_ok (congrArg some found)
    · exact yields_error _

theorem IsLimitOf.positive {id : OptionId} {limit : Option Int}
    (isLimit : IsLimitOf given id limit) {before : Int} (positive : 0 < before) :
    0 < limit.getD before := by
  cases limit with
  | none => exact positive
  | some value =>
    obtain ⟨text, _, limited⟩ := Option.map_eq_some_iff.mp isLimit
    exact limit?_positive limited

theorem yields_readChange (given : Arguments OptionId) :
    Yields (readChange given) fun command =>
      ∃ change, command = .changeSettings change ∧ IsChange given change := by
  unfold readChange
  refine (yields_limitOf given .maxDepth).bind fun maxDepth depthEq =>
    (yields_limitOf given .maxProperties).bind fun maxProperties propertiesEq =>
    (yields_limitOf given .collapseThreshold).bind fun collapseThreshold thresholdEq =>
    (yields_limitOf given .maxNodes).bind fun maxNodes nodesEq => Yields.after fun _ => ?_
  exact yields_ok ⟨_, rfl, depthEq, propertiesEq, thresholdEq, nodesEq, rfl, rfl, rfl⟩

theorem readRest_of_asks {arguments : List String}
    (asks : Asks arguments given) :
    ∃ program rest, readStart arguments = .ok (.command program .settings rest) ∧
      ∀ isDirectory, readRest isDirectory .settings rest = (readChange given).map some := by
  obtain ⟨program, rest, start, more, started, parsed, noHelp, others, options, noMoreHelp⟩ := asks
  refine ⟨program, rest, started, fun _ => ?_⟩
  simp only [readRest, readSettings, parsed, noHelp, others, readWith, options, noMoreHelp, bind,
    Except.bind, Option.isSome_none, Bool.false_eq_true, if_false]
  cases readChange given <;> rfl

theorem storable_override {change : Overrides} {current : Settings}
    (storable : current.IsStorable) (isChange : IsChange given change) :
    (current.override change).IsStorable := by
  refine ⟨isChange.maxDepth.positive storable.maxDepth,
    isChange.maxProperties.positive storable.maxProperties,
    isChange.collapseThreshold.positive storable.collapseThreshold,
    isChange.maxNodes.positive storable.maxNodes, ?_⟩
  rw [Settings.override, isChange.dependencyDirs]
  exact storable.dependencyDirs

section

variable {settingsFile : Path} {files : FileTree} {arguments : List String}
  {given : Arguments OptionId} {current : Settings}

/-- A run with the exit code zero has not ended in a failure. -/
theorem exists_of_respond (worked : (respond settingsFile files arguments).1.exitCode = 0) :
    ∃ reply after, (run settingsFile arguments : Task Unit Reply) files ⟨(), []⟩ =
      (.ok reply, after) ∧ (respond settingsFile files arguments).1 = reply := by
  unfold respond Task.runIn at worked ⊢
  rcases ran : (run settingsFile arguments : Task Unit Reply) files ⟨(), []⟩ with
    ⟨failure | reply, after⟩
  · simp only [ran] at worked
    cases failure <;> cases worked
  · exact ⟨reply, after, rfl, by simp only [ran]⟩

theorem respond_of_settles {reply : Reply}
    (settles : Settles files (fun _ : Unit => True) (run settingsFile arguments) (.ok reply)) :
    (respond settingsFile files arguments).1 = reply := by
  obtain ⟨_, ran, _⟩ := settles ⟨(), []⟩ trivial
  simp only [respond, Task.runIn, ran]

/-- A run that works changes the settings as it is asked to, or there is nothing to change. -/
theorem runChange_of_respond (asks : Asks arguments given)
    (worked : (respond settingsFile files arguments).1.exitCode = 0)
    (loads : ∀ good : Unit → Prop, Settles files good (Settings.load settingsFile) (.ok current)) :
    ∃ change before after, IsChange given change ∧
      readChange given = .ok (.changeSettings change) ∧
      (runChange settingsFile change : Task Unit Reply) files before =
        (.ok (respond settingsFile files arguments).1, after) := by
  obtain ⟨reply, after, ran, rfl⟩ := exists_of_respond worked
  obtain ⟨program, rest, started, asked⟩ := readRest_of_asks asks
  unfold run at ran
  rw [started] at ran
  replace ran : (continueWith settingsFile program .settings rest : Task Unit Reply) files
    ⟨(), []⟩ = _ := ran
  unfold continueWith at ran
  obtain ⟨between, loaded, _⟩ := loads (fun _ => True) ⟨(), []⟩ trivial
  have looked : Task.files files between = (.ok files, between) := rfl
  rw [Task.bind_of_ok loaded, Task.bind_of_ok looked] at ran
  have yields := yields_readChange given
  rw [asked] at ran
  cases read : readChange given with
  | error fault =>
    rw [read] at ran
    cases fault with
    | nullCharacter text => cases ran
    | _ =>
      obtain ⟨left, _⟩ := Prod.mk.inj ran
      rw [← Except.ok.inj left] at worked
      cases worked
  | ok command =>
    rw [read] at ran
    obtain ⟨change, rfl, isChange⟩ := yields _ read
    exact ⟨change, between, after, isChange, rfl, ran⟩

variable {change : Overrides}

/-- A change that works saves the changed settings, or there is nothing to change. -/
theorem files_of_runChange {reply : Reply} {before after : Journal Unit}
    (loads : ∀ good : Unit → Prop, Settles files good (Settings.load settingsFile) (.ok current))
    (ran : (runChange settingsFile change : Task Unit Reply) files before = (.ok reply, after))
    (worked : reply.exitCode = 0) :
    (current.override change = current ∧ reply.files = files) ∨
    ∃ saved start finish,
      ((current.override change).save settingsFile : Task Unit Settings.Saved) files start =
        (.ok saved, finish) ∧
      saved.outcome = .ok true ∧ reply.files = saved.files := by
  unfold runChange at ran
  obtain ⟨between, loaded, _⟩ := loads (fun _ => True) before trivial
  rw [Task.bind_of_ok loaded] at ran
  by_cases unchanged : current.override change = current
  · simp only [unchanged, if_true] at ran
    cases ran
    exact .inl ⟨unchanged, rfl⟩
  · simp only [unchanged, if_false] at ran
    rcases stored : ((current.override change).save settingsFile : Task Unit Settings.Saved) files
      between with ⟨failure | saved, finish⟩
    · rw [Task.bind_of_error stored] at ran
      cases ran
    · rw [Task.bind_of_ok stored] at ran
      refine .inr ⟨saved, between, finish, stored, ?_⟩
      rcases outcome : saved.outcome with failure | _ | _
      · simp only [outcome] at ran
        cases ran
        cases worked
      · simp only [outcome] at ran
        cases ran
        cases worked
      · simp only [outcome] at ran
        cases ran
        exact ⟨rfl, rfl⟩

/-- A change of the settings is confirmed when they are saved. -/
theorem settles_runChange {after : FileTree} {good : Unit → Prop}
    (loads : Settles files good (Settings.load settingsFile) (.ok current))
    (changes : current.override change ≠ current)
    (saves : Settles files good ((current.override change).save settingsFile)
      (.ok ⟨after, .ok true⟩)) :
    Settles files good (runChange settingsFile change)
      (.ok ⟨0, "✓ Saved settings to " ++ settingsFile.text ++ "\n", after, [settingsFile],
        none⟩) := by
  unfold runChange
  refine loads.bind ?_
  simp only [changes, if_false]
  exact saves.bind (settles_pure _)

/-- What a command line writes to the settings file is read back. -/
def WritesBack (settingsFile : Path) (files : FileTree) (given : Arguments OptionId) : Prop :=
  ∀ document current change, Holds files settingsFile document →
    (Settings.load settingsFile).outcomeFrom files () = .ok current →
    readChange given = .ok (.changeSettings change) →
    ReadsBack ((current.override change).store document)

/-- After a run that works, the settings are those before it with the change that it asks for. -/
theorem loads_of_respond (asks : Asks arguments given)
    (worked : (respond settingsFile files arguments).1.exitCode = 0)
    (writesBack : WritesBack settingsFile files given)
    (loaded : (Settings.load settingsFile).outcomeFrom files () = .ok current) :
    ∃ change, IsChange given change ∧
      (Settings.load settingsFile).outcomeFrom (respond settingsFile files arguments).1.files () =
        .ok (current.override change) := by
  obtain ⟨storable, ⟨document, holds⟩, loads⟩ := Settings.settles_of_load loaded
  obtain ⟨change, _, _, isChange, read, ran⟩ := runChange_of_respond asks worked loads
  refine ⟨change, isChange, ?_⟩
  obtain ⟨unchanged, same⟩ | ⟨saved, _, _, stored, done, same⟩ :=
    files_of_runChange loads ran worked
  · rw [same, unchanged, loaded]
  · have readsBack := writesBack document current change holds loaded read
    obtain ⟨_, keeps⟩ :=
      Settings.exists_keeps_of_save (storable_override storable isChange) holds
        readsBack stored done
    rw [same]
    exact (keeps.loads fun _ : Unit => True).outcomeFrom_eq trivial

/-- Runs of the program that change the settings one after the other, each in the file tree that the
one before has left.  All of them work. -/
inductive Changes (settingsFile : Path) :
    FileTree → List (Arguments OptionId) → FileTree → Prop where
  | none (files : FileTree) : Changes settingsFile files [] files
  | run {files finish : FileTree} {arguments : List String} {given : Arguments OptionId}
      {rest : List (Arguments OptionId)}
      (asks : Asks arguments given)
      (worked : (respond settingsFile files arguments).1.exitCode = 0)
      (writesBack : WritesBack settingsFile files given)
      (others : Changes settingsFile (respond settingsFile files arguments).1.files rest finish) :
      Changes settingsFile files (given :: rest) finish

/-! ## The last values -/

/-- A limit is what the last value of an option says, or the limit before when there is no value. -/
def IsLatest (runs : List (Arguments OptionId)) (id : OptionId) (before after : Int) : Prop :=
  match (runs.flatMap (·.values id)).getLast? with
  | some text => limit? text = some after
  | none => after = before

/-- Settings add up when each of them is the last one given.  The ignore patterns of a run stand for
all of them together. -/
structure Accumulates (before : Settings) (runs : List (Arguments OptionId)) (after : Settings) :
    Prop where
  maxDepth : IsLatest runs .maxDepth before.maxDepth after.maxDepth
  maxProperties : IsLatest runs .maxProperties before.maxProperties after.maxProperties
  collapseThreshold :
    IsLatest runs .collapseThreshold before.collapseThreshold after.collapseThreshold
  maxNodes : IsLatest runs .maxNodes before.maxNodes after.maxNodes
  extraIgnores : after.extraIgnores =
    ((runs.map (·.values .ignore)).filter (!·.isEmpty)).getLast?.getD before.extraIgnores
  wrapperRules : after.wrapperRules = before.wrapperRules
  dependencyDirs : after.dependencyDirs = before.dependencyDirs

theorem Accumulates.refl (settings : Settings) : Accumulates settings [] settings :=
  ⟨rfl, rfl, rfl, rfl, rfl, rfl, rfl⟩

/-- A change that names the limit gives it, until a later one does. -/
theorem IsLatest.cons {rest : List (Arguments OptionId)} {id : OptionId} {limit : Option Int}
    {before after : Int} (isLimit : IsLimitOf given id limit)
    (latest : IsLatest rest id (limit.getD before) after) :
    IsLatest (given :: rest) id before after := by
  unfold IsLatest at latest ⊢
  rw [List.flatMap_cons, List.getLast?_append]
  cases last : (rest.flatMap (·.values id)).getLast? with
  | some text => simpa only [last, Option.some_or] using latest
  | none =>
    simp only [last] at latest
    rw [Option.none_or, latest]
    unfold IsLimitOf Arguments.value? at isLimit
    cases value : (given.values id).getLast? <;> cases limit <;> simp_all

/-- What accumulates behind one change accumulates over it and those that follow. -/
theorem Accumulates.cons {rest : List (Arguments OptionId)} {before after : Settings}
    (isChange : IsChange given change)
    (accumulates : Accumulates (before.override change) rest after) :
    Accumulates before (given :: rest) after where
  maxDepth := .cons isChange.maxDepth accumulates.maxDepth
  maxProperties := .cons isChange.maxProperties accumulates.maxProperties
  collapseThreshold := .cons isChange.collapseThreshold accumulates.collapseThreshold
  maxNodes := .cons isChange.maxNodes accumulates.maxNodes
  extraIgnores := by
    rw [accumulates.extraIgnores, Settings.override, isChange.extraIgnores, List.map_cons,
      List.filter_cons]
    cases (given.values .ignore).isEmpty with
    | true => rfl
    | false =>
      simp only [Bool.not_false, if_true, List.getLast?_cons, Option.getD_some, Bool.false_eq_true,
        if_false]
  wrapperRules := by
    rw [accumulates.wrapperRules, Settings.override, isChange.wrapperRules]
    rfl
  dependencyDirs := by
    rw [accumulates.dependencyDirs, Settings.override, isChange.dependencyDirs]
    rfl

theorem Changes.exists_accumulates {files finish : FileTree} {runs : List (Arguments OptionId)}
    {before : Settings} (changes : Changes settingsFile files runs finish)
    (loaded : (Settings.load settingsFile).outcomeFrom files () = .ok before) :
    ∃ after, (Settings.load settingsFile).outcomeFrom finish () = .ok after ∧
      Accumulates before runs after := by
  induction changes generalizing before with
  | none files => exact ⟨before, loaded, .refl before⟩
  | run asks worked writesBack _ ih =>
    obtain ⟨change, isChange, changed⟩ := loads_of_respond asks worked writesBack loaded
    obtain ⟨after, loadedAfter, accumulates⟩ := ih changed
    exact ⟨after, loadedAfter, accumulates.cons isChange⟩

end

/-- Settings that have been saved are loaded again from every state, and the other entries of the
document are unchanged; and runs that change settings one after the other leave those of the first
file tree with the last value given for each option. -/
theorem settings_persist {σ : Type} {settingsFile : Path} :
    (∀ {tree : FileTree} {settings : Settings} {document : Settings.Document} {state : σ}
      {saved : Settings.Saved}, settings.IsStorable → Holds tree settingsFile document →
      ReadsBack (settings.store document) →
      (settings.save settingsFile).outcomeFrom tree state = .ok saved → saved.outcome = .ok true →
      ∃ entries, Settings.Keeps settings document settingsFile saved.files entries) ∧
    (∀ {files finish : FileTree} {runs : List (Arguments OptionId)} {before : Settings},
      Changes settingsFile files runs finish →
      (Settings.load settingsFile).outcomeFrom files () = .ok before →
      ∃ after, (Settings.load settingsFile).outcomeFrom finish () = .ok after ∧
        Accumulates before runs after) := by
  constructor
  · intro tree settings document state saved storable holds readsBack saves done
    rcases ran : (settings.save settingsFile : Task σ Settings.Saved) tree ⟨state, []⟩ with
      ⟨outcome, after⟩
    rw [Task.outcomeFrom, ran] at saves
    obtain rfl : outcome = .ok saved := saves
    exact Settings.exists_keeps_of_save storable holds readsBack ran done
  · intro files finish runs before changes loaded
    exact changes.exists_accumulates loaded

/-! ## A settings file that is written twice -/

/-- A file tree with nothing in it but a settings file. -/
def treeOf (text : String) : FileTree :=
  ⟨.directory [("settings.toml", .file text.toUTF8 none)], []⟩

def oneFile : Path := .ofRoot ["settings.toml"]

/-- Settings of small limits with a wrapper and an ignore pattern, and the same with another depth.
-/
def shallow : Settings := ⟨3, 2, 2, 2, [("Ref<(.+)>", "Ref")], ["d"], ["*.gen.ts"]⟩

def deepened : Settings := { shallow with maxDepth := 5 }

/-- A document with the first settings beside another entry. -/
def shallowDocument : Settings.Document := shallow.store [("x", .integer 7)]

def shallowText : String :=
  "x = 7\n\n[simplifier]\nmax_depth = 3\nmax_properties = 2\ncollapse_threshold = 2\n" ++
    "max_nodes = 2\n[[simplifier.wrappers]]\npattern = \"Ref<(.+)>\"\nreplace = \"Ref\"\n\n" ++
    "[graph]\ndependency_dirs = [ \"d\",]\nignore = [ \"*.gen.ts\",]\n"

def deepenedText : String :=
  "x = 7\n\n[simplifier]\nmax_depth = 5\nmax_properties = 2\ncollapse_threshold = 2\n" ++
    "max_nodes = 2\n[[simplifier.wrappers]]\npattern = \"Ref<(.+)>\"\nreplace = \"Ref\"\n\n" ++
    "[graph]\ndependency_dirs = [ \"d\",]\nignore = [ \"*.gen.ts\",]\n"

/-- The options of a command line that asks for another depth. -/
def deeper : Arguments OptionId := ⟨[⟨.maxDepth, "5"⟩], []⟩

theorem holds_treeOf
    (parsed : Toml.parse (Text.unifyNewlines text.toList) = .ok (.table document)) :
    Holds (treeOf text) oneFile document := by
  have bytes : (treeOf text).bytes? oneFile = some text.toUTF8 := rfl
  refine .read ?_ parsed
  simp only [FileTree.text?, bytes, Text.Utf8.decode?_toUTF8, Option.bind_eq_bind,
    Option.bind_some, Option.pure_def]

theorem readsBack_of_parse
    (rendered : Toml.render document = .ok text)
    (parsed : Toml.parse (Text.unifyNewlines text.toList) = .ok (.table document)) :
    ReadsBack document := by
  intro found renderedFound
  obtain rfl : text = found := Except.ok.inj (rendered.symm.trans renderedFound)
  exact ⟨document, parsed, .refl _⟩

/-- The text of a file is replaced by that of settings. -/
theorem settles_save_treeOf {σ : Type} {good : σ → Prop} {settings : Settings}
    {before after : String}
    (holds : Holds (treeOf before) oneFile document)
    (rendered : Toml.render (settings.store document) = .ok after) :
    Settles (treeOf before) good (settings.save oneFile) (.ok ⟨treeOf after, .ok true⟩) :=
  Settings.settles_save holds rfl rendered rfl

theorem render_shallowDocument : Toml.render shallowDocument = .ok shallowText := by
  decide +kernel

set_option maxRecDepth 2000 in
theorem parse_shallowText :
    Toml.parse (Text.unifyNewlines shallowText.toList) = .ok (.table shallowDocument) := by
  unfold shallowText
  rw [String.toList_append, String.toList_append, String.toList_ofList, String.toList_ofList,
    String.toList_ofList]
  rfl

theorem render_deepened : Toml.render (deepened.store shallowDocument) = .ok deepenedText := by
  decide +kernel

set_option maxRecDepth 2000 in
theorem parse_deepenedText :
    Toml.parse (Text.unifyNewlines deepenedText.toList) =
      .ok (.table (deepened.store shallowDocument)) := by
  unfold deepenedText
  rw [String.toList_append, String.toList_append, String.toList_ofList, String.toList_ofList,
    String.toList_ofList]
  rfl

theorem isStorable_shallow : shallow.IsStorable := by
  constructor <;> decide

theorem settles_load_shallow {σ : Type} (good : σ → Prop) :
    Settles (treeOf shallowText) good (Settings.load oneFile) (.ok shallow) :=
  Settings.settles_load_of_same isStorable_shallow (holds_treeOf parse_shallowText) (.refl _)

theorem loads_shallow :
    (Settings.load oneFile).outcomeFrom (treeOf shallowText) () = .ok shallow :=
  (settles_load_shallow fun _ => True).outcomeFrom_eq trivial

/-- A run that asks for another depth changes the file. -/
theorem respond_deeper :
    (respond oneFile (treeOf shallowText) ["config", "set", "--max-depth", "5"]).1 =
      ⟨0, "✓ Saved settings to " ++ oneFile.text ++ "\n", treeOf deepenedText,
        [oneFile], none⟩ := by
  have changes : shallow.override { Overrides.none with maxDepth := some 5 } ≠ shallow := by decide
  refine respond_of_settles ((settles_load_shallow _).bind (settles_files.bind ?_))
  exact settles_runChange (settles_load_shallow _) changes
    (settles_save_treeOf (holds_treeOf parse_shallowText) render_deepened)

theorem writesBack_deeper : WritesBack oneFile (treeOf shallowText) deeper := by
  intro document current change holds loaded read
  obtain rfl := holds.unique (holds_treeOf parse_shallowText)
  obtain rfl : current = shallow := Except.ok.inj (loaded.symm.trans loads_shallow)
  cases read
  exact readsBack_of_parse render_deepened parse_deepenedText

theorem changes_deeper : Changes oneFile (treeOf shallowText) [deeper] (treeOf deepenedText) := by
  have asks : Asks ["config", "set", "--max-depth", "5"] deeper :=
    ⟨_, _, _, _, rfl, rfl, rfl, rfl, rfl, rfl⟩
  refine .run asks ?_ writesBack_deeper ?_ <;> rw [respond_deeper]
  exact .none _

theorem settings_persist_deeper :
    (∃ entries, Settings.Keeps shallow [("x", .integer 7)] oneFile (treeOf shallowText) entries) ∧
      ∃ after, (Settings.load oneFile).outcomeFrom (treeOf deepenedText) () = .ok after ∧
        Accumulates shallow [deeper] after := by
  have holds : Holds (treeOf "x = 7\n") oneFile [("x", .integer 7)] := holds_treeOf rfl
  have readsBack : ReadsBack (shallow.store [("x", .integer 7)]) :=
    readsBack_of_parse render_shallowDocument parse_shallowText
  have saves : (shallow.save oneFile).outcomeFrom (treeOf "x = 7\n") () =
      .ok ⟨treeOf shallowText, .ok true⟩ :=
    (settles_save_treeOf holds render_shallowDocument : Settles _ (fun _ => True) _
      _).outcomeFrom_eq trivial
  obtain ⟨persists, accumulates⟩ := @settings_persist Unit oneFile
  exact ⟨persists isStorable_shallow holds readsBack saves rfl,
    accumulates changes_deeper loads_shallow⟩

end Command
end ModuleAtlas
