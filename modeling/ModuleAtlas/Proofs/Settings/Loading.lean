import ModuleAtlas.Proofs.Task.Agreement
import ModuleAtlas.Proofs.Text.Pieces
import ModuleAtlas.Proofs.Text.Utf8
import ModuleAtlas.Proofs.Toml.Tables
import ModuleAtlas.Settings.Stored

/-!
# Loading settings

What settings are loaded from a file, stated on the file alone.  Each setting is what the document
gives for it when that has the right form, and the default otherwise.  Loading ends in a failure
exactly for files that are no text, documents that the reader of the format gives up on, and
documents in which something else than a table stands in the place of a section.
-/

namespace ModuleAtlas

open ModuleAtlas.Task (Settles settles_pure settles_fail settles_note settles_files)

namespace Settings

/-! ## What a file holds -/

/-- The settings file at a path holds a document.  A file that is missing, cannot be opened or
breaks a rule of the format holds an empty one. -/
inductive Holds (tree : FileTree) (path : Path) : Document → Prop where
  | missing {fault : FileTree.LookupFault} (looked : tree.lookup path = .error fault)
      (short : fault ≠ .tooLong) : Holds tree path []
  | unopened {names : List String} {entry : Entry} (looked : tree.lookup path = .ok (names, entry))
      (noFile : entry.isFile = false) : Holds tree path []
  | malformed {text : List Char} (found : tree.text? path = some text)
      (broken : Toml.parse text = .error .malformed) : Holds tree path []
  | read {text : List Char} {document : Document} (found : tree.text? path = some text)
      (parsed : Toml.parse text = .ok (.table document)) : Holds tree path document

/-- No document can be made of the settings file at a path. -/
inductive Unusable (tree : FileTree) (path : Path) : Prop where
  | tooLong (looked : tree.lookup path = .error .tooLong)
  | notText {bytes : ByteArray} (found : tree.bytes? path = some bytes)
      (undecoded : Text.Utf8.decode? bytes.toList = none)
  | givenUp {text : List Char} {fault : Toml.Fault} (found : tree.text? path = some text)
      (broken : Toml.parse text = .error fault) (other : fault ≠ .malformed)

/-- Something that counts as given but is no table stands in the place of a section. -/
def Misplaced (document : Document) (name : String) : Prop :=
  ∃ content, Keyed.find? name document = some content ∧ content.isGiven = true ∧ ¬content.IsTable

/-- The settings file at a path is one that loading does not cope with. -/
def Breaks (tree : FileTree) (path : Path) : Prop :=
  Unusable tree path ∨
    ∃ document, Holds tree path document ∧
      (Misplaced document simplifierSection ∨ Misplaced document graphSection)

/-! ## What a document says -/

/-- A section of a document is a table that holds a value under a key. -/
def Given (document : Document) (name key : String) (value : Toml) : Prop :=
  ∃ entries, Keyed.find? name document = some (.table entries) ∧
    Keyed.find? key entries = some value

/-- A limit is the positive integer that a document gives, or the default. -/
inductive IsLimit (document : Document) (key : String) (fallback : Int) : Int → Prop where
  | given {value : Int} (found : Given document simplifierSection key (.integer value))
      (positive : 0 < value) : IsLimit document key fallback value
  | fallback (none : ∀ value, Given document simplifierSection key (.integer value) → value ≤ 0) :
      IsLimit document key fallback fallback

/-- An entry of a list of wrapper rules is a table with a pattern and a replacement. -/
def WellFormed (entry : Toml) (rule : String × String) : Prop :=
  ∃ entries, entry = .table entries ∧ Keyed.find? "pattern" entries = some (.string rule.1) ∧
    Keyed.find? "replace" entries = some (.string rule.2)

/-- Rules are those of the well-formed entries of a list, in order. -/
inductive RulesIn : List Toml → List (String × String) → Prop where
  | nil : RulesIn [] []
  | keep {entry : Toml} {rule : String × String} {entries : List Toml}
      {rules : List (String × String)} (wellFormed : WellFormed entry rule)
      (rest : RulesIn entries rules) : RulesIn (entry :: entries) (rule :: rules)
  | skip {entry : Toml} {entries : List Toml} {rules : List (String × String)}
      (malformed : ∀ rule, ¬WellFormed entry rule) (rest : RulesIn entries rules) :
      RulesIn (entry :: entries) rules

/-- Wrapper rules are those of the list that a document gives, or the defaults. -/
inductive AreRules (document : Document) (fallback : List (String × String)) :
    List (String × String) → Prop where
  | given {entries : List Toml} {rules : List (String × String)}
      (found : Given document simplifierSection "wrappers" (.array entries))
      (listed : RulesIn entries rules) : AreRules document fallback rules
  | fallback (none : ∀ entries, ¬Given document simplifierSection "wrappers" (.array entries)) :
      AreRules document fallback fallback

/-- Texts are made of those that a document lists, or the defaults. -/
inductive AreTexts (document : Document) (key : String) (fallback : List String)
    (madeOf : List String → List String → Prop) : List String → Prop where
  | given {listed texts : List String}
      (found : Given document graphSection key (.array (listed.map .string)))
      (made : madeOf listed texts) : AreTexts document key fallback madeOf texts
  | fallback
      (none : ∀ listed : List String,
        ¬Given document graphSection key (.array (listed.map .string))) :
      AreTexts document key fallback madeOf fallback

/-- Texts in order and without repetition are those of a list. -/
def SortedSetOf (listed texts : List String) : Prop :=
  texts.Pairwise (· < ·) ∧ ∀ text, text ∈ texts ↔ text ∈ listed

/-- Settings are what a document says, with defaults for what it does not say. -/
structure Reads (document : Document) (settings : Settings) : Prop where
  maxDepth : IsLimit document "max_depth" default.maxDepth settings.maxDepth
  maxProperties : IsLimit document "max_properties" default.maxProperties settings.maxProperties
  collapseThreshold :
    IsLimit document "collapse_threshold" default.collapseThreshold settings.collapseThreshold
  maxNodes : IsLimit document "max_nodes" default.maxNodes settings.maxNodes
  positive : 0 < settings.maxDepth ∧ 0 < settings.maxProperties ∧
    0 < settings.collapseThreshold ∧ 0 < settings.maxNodes
  wrapperRules : AreRules document default.wrapperRules settings.wrapperRules
  dependencyDirs : AreTexts document "dependency_dirs" default.dependencyDirs SortedSetOf
    settings.dependencyDirs
  extraIgnores : AreTexts document "ignore" default.extraIgnores Eq settings.extraIgnores

/-! ## Reading the file -/

section

variable {σ : Type} {tree : FileTree} {good : σ → Prop} {path : Path} {document : Document}

theorem text?_eq_some {text : List Char} (found : tree.text? path = some text) :
    ∃ names bytes source, tree.lookup path = .ok (names, .file bytes source) := by
  obtain ⟨bytes, read, _⟩ := Option.bind_eq_some_iff.mp found
  unfold FileTree.bytes? at read
  split at read
  · rename_i looked
    exact ⟨_, _, _, looked⟩
  · cases read

/-- What becomes of the text of a settings file. -/
theorem settles_readDocument_text {names : List String} {bytes : ByteArray} {source : Option Node}
    (looked : tree.lookup path = .ok (names, .file bytes source))
    {outcome : Except Failure Document}
    (settles : Settles tree good
      (match tree.text? path with
        | none => Task.fail (.notText path)
        | some text =>
          match Toml.parse text with
          | .ok (.table entries) => return entries
          | .ok _ => return []
          | .error .malformed => readDocument.unreadable path
          | .error fault => Task.fail (.settingsFormat fault)) outcome) :
    Settles tree good (readDocument path) outcome := by
  have present : tree.passes (fun _ => true) path = .ok true := by
    simp [FileTree.passes, looked]
  have file : tree.isFile path = true := by
    simp [FileTree.isFile, looked, Entry.isFile]
  unfold readDocument
  refine settles_files.bind ((Task.settles_passes_ok present).bind ?_)
  simp only [file, Bool.not_true, Bool.false_eq_true, if_false]
  exact settles

theorem settles_unreadable :
    Settles tree good (readDocument.unreadable path : Task σ Document) (.ok []) :=
  (settles_note _).bind (settles_pure _)

/-- A settings file is read as the document that it holds. -/
theorem Holds.settles (holds : Holds tree path document) :
    Settles tree good (readDocument path) (.ok document) := by
  cases holds with
  | @missing fault looked short =>
    have absent : tree.passes (fun _ => true) path = .ok false := by
      cases fault with
      | tooLong => exact absurd rfl short
      | _ => simp [FileTree.passes, looked]
    unfold readDocument
    exact settles_files.bind ((Task.settles_passes_ok absent).bind (settles_pure _))
  | @unopened names entry looked noFile =>
    have present : tree.passes (fun _ => true) path = .ok true := by
      simp [FileTree.passes, looked]
    have other : tree.isFile path = false := by
      simpa [FileTree.isFile, looked] using noFile
    unfold readDocument
    refine settles_files.bind ((Task.settles_passes_ok present).bind ?_)
    simp only [other, Bool.not_true, Bool.false_eq_true, Bool.not_false, if_false, if_true]
    exact settles_unreadable
  | malformed found broken =>
    obtain ⟨_, _, _, looked⟩ := text?_eq_some found
    refine settles_readDocument_text looked ?_
    rw [found]
    simp only [broken]
    exact settles_unreadable
  | read found parsed =>
    obtain ⟨_, _, _, looked⟩ := text?_eq_some found
    refine settles_readDocument_text looked ?_
    rw [found]
    simp only [parsed]
    exact settles_pure _

/-- A settings file that no document can be made of is not read. -/
theorem Unusable.settles (unusable : Unusable tree path) :
    ∃ failure, Settles tree good (readDocument path : Task σ Document) (.error failure) := by
  cases unusable with
  | tooLong looked =>
    have long : tree.passes (fun _ => true) path = .error path := by
      simp [FileTree.passes, looked]
    unfold readDocument
    exact ⟨_, settles_files.bind (Task.settles_passes_error long).bind_error⟩
  | @notText bytes found undecoded =>
    have none : tree.text? path = none := by
      simp [FileTree.text?, found, undecoded]
    unfold FileTree.bytes? at found
    split at found
    · rename_i looked
      refine ⟨.notText path, settles_readDocument_text looked ?_⟩
      rw [none]
      exact settles_fail _
    · cases found
  | @givenUp text fault found broken other =>
    obtain ⟨_, _, _, looked⟩ := text?_eq_some found
    refine ⟨.settingsFormat fault, settles_readDocument_text looked ?_⟩
    rw [found]
    simp only [broken]
    cases fault with
    | malformed => exact absurd rfl other
    | _ => exact settles_fail _

/-- Each settings file holds a document unless none can be made of it. -/
theorem unusable_or_holds (tree : FileTree) (path : Path) :
    Unusable tree path ∨ ∃ document, Holds tree path document := by
  cases looked : tree.lookup path with
  | error fault =>
    by_cases long : fault = .tooLong
    · subst long
      exact .inl (.tooLong looked)
    · exact .inr ⟨[], .missing looked long⟩
  | ok located =>
    obtain ⟨names, entry⟩ := located
    cases entry with
    | directory entries => exact .inr ⟨[], .unopened looked rfl⟩
    | link target => exact .inr ⟨[], .unopened looked rfl⟩
    | file bytes source =>
      have read : tree.bytes? path = some bytes := by
        simp [FileTree.bytes?, looked]
      cases decoded : Text.Utf8.decode? bytes.toList with
      | none => exact .inl (.notText read decoded)
      | some written =>
        have found : tree.text? path = some (Text.unifyNewlines written.toList) := by
          simp [FileTree.text?, read, decoded]
        cases parsed : Toml.parse (Text.unifyNewlines written.toList) with
        | ok value =>
          obtain ⟨document, rfl⟩ := Toml.isTable_of_parse parsed
          exact .inr ⟨document, .read found parsed⟩
        | error fault =>
          by_cases broken : fault = .malformed
          · subst broken
            exact .inr ⟨[], .malformed found parsed⟩
          · exact .inl (.givenUp found parsed broken)

/-! ## Reading the entries -/

/-- A section that is not misplaced is read as a table with the entries that the document gives. -/
theorem sectionOf_eq_table {name : String}
    (placed : ¬Misplaced document name) :
    ∃ entries, sectionOf document name = .table entries ∧
      ∀ key value, Keyed.find? key entries = some value ↔ Given document name key value := by
  unfold sectionOf Given
  cases found : Keyed.find? name document with
  | none => exact ⟨[], rfl, fun key value => by simp [Keyed.find?]⟩
  | some content =>
    by_cases isGiven : content.isGiven = true
    · have table : content.IsTable := by
        by_contra other
        exact placed ⟨content, found, isGiven, other⟩
      obtain ⟨entries, rfl⟩ := table
      exact ⟨entries, by simp [isGiven], fun key value => by simp⟩
    · refine ⟨[], by simp [isGiven], fun key value => ?_⟩
      simp only [Keyed.find?, List.lookup_nil, reduceCtorEq, Option.some.injEq, false_iff]
      rintro ⟨entries, rfl, entry⟩
      cases entries with
      | nil => cases entry
      | cons first rest => exact isGiven rfl

/-- A limit of a table is read if it is a positive integer. -/
theorem settles_readLimit (entries : List (String × Toml)) (name : String) :
    Settles tree good (readLimit (.table entries) name : Task σ (Option Int))
      (.ok ((Keyed.find? name entries).bind limit?)) := by
  unfold readLimit
  cases found : Keyed.find? name entries with
  | none =>
    have absent : Keyed.has name entries = false := by
      rw [Keyed.has, show entries.lookup name = none from found]
      rfl
    simp only [holds?, absent]
    exact settles_pure _
  | some value =>
    have present : Keyed.has name entries = true := by
      rw [Keyed.has, show entries.lookup name = some value from found]
      rfl
    simp only [holds?, present, Toml.get?, found, Option.bind_some]
    cases limit : limit? value with
    | none => exact (settles_note _).bind (settles_pure _)
    | some limit => exact settles_pure _

theorem settles_readEntry (entries : List (String × Toml)) (name : String) :
    Settles tree good (readEntry (.table entries) name : Task σ (Option Toml))
      (.ok (Keyed.find? name entries)) :=
  settles_pure _

/-- The rules that a value lists, if it is a list. -/
def listedRules? : Toml → Option (List (String × String))
  | .array entries => some (entries.filterMap wrapperRule?)
  | _ => none

/-- The entries that are rules are read, and the others are passed over. -/
theorem settles_readWrapperRules (value : Toml) :
    Settles tree good (readWrapperRules value : Task σ (Option (List (String × String))))
      (.ok (listedRules? value)) := by
  have each : ∀ entry, Settles tree good (do
      let rule := wrapperRule? entry
      if rule.isNone then Task.note .malformedWrapper
      return rule : Task σ (Option (String × String))) (.ok (wrapperRule? entry)) := by
    intro entry
    dsimp only
    split
    · exact (settles_note _).bind (settles_pure _)
    · exact settles_pure _
  cases value with
  | array entries =>
    have answers := Task.settles_mapM_ok each fun entry (_ : entry ∈ entries) => ⟨_, rfl⟩
    have kept : (entries.filterMap fun entry =>
        (Except.ok (wrapperRule? entry) : Except Failure _).toOption).filterMap id =
          entries.filterMap wrapperRule? := by
      rw [List.filterMap_filterMap]
      rfl
    rw [listedRules?, ← kept]
    exact answers.bind (settles_pure _)
  | _ => exact (settles_note _).bind (settles_pure _)

theorem settles_readTexts (value : Toml) (notice : Notice) :
    Settles tree good (readTexts value notice : Task σ (Option (List String)))
      (.ok value.textList?) := by
  unfold readTexts
  split
  · exact (settles_note _).bind (settles_pure _)
  · exact settles_pure _

variable {α β : Type} {part : Toml}

theorem settles_readGiven {entry : Option Toml} {read : Toml → Task σ (Option α)}
    {value? : Toml → Option α}
    (settles : ∀ value, Settles tree good (read value) (.ok (value? value))) :
    Settles tree good (readGiven entry read) (.ok (entry.bind value?)) := by
  cases entry with
  | none => exact settles_pure _
  | some value => exact settles value

/-- What two sections set. -/
def setBy (simplifier graph : List (String × Toml)) : Overrides where
  maxDepth := (Keyed.find? "max_depth" simplifier).bind limit?
  maxProperties := (Keyed.find? "max_properties" simplifier).bind limit?
  collapseThreshold := (Keyed.find? "collapse_threshold" simplifier).bind limit?
  maxNodes := (Keyed.find? "max_nodes" simplifier).bind limit?
  wrapperRules := (Keyed.find? "wrappers" simplifier).bind listedRules?
  dependencyDirs :=
    ((Keyed.find? "dependency_dirs" graph).bind Toml.textList?).map Text.sortedSet
  extraIgnores := (Keyed.find? "ignore" graph).bind Toml.textList?

/-- Two sections that are tables are read as the overrides they list. -/
theorem settles_readOverrides {simplifier graph : List (String × Toml)}
    (simplifierTable : sectionOf document simplifierSection = .table simplifier)
    (graphTable : sectionOf document graphSection = .table graph) :
    Settles tree good (readOverrides document : Task σ Overrides)
      (.ok (setBy simplifier graph)) := by
  unfold readOverrides
  simp only [simplifierTable, graphTable]
  refine (settles_readLimit _ _).bind ((settles_readLimit _ _).bind
    ((settles_readLimit _ _).bind ((settles_readLimit _ _).bind ?_)))
  refine (settles_readEntry _ _).bind ((settles_readGiven settles_readWrapperRules).bind ?_)
  refine (settles_readEntry _ _).bind
    ((settles_readGiven fun value => settles_readTexts value _).bind ?_)
  refine (settles_readEntry _ _).bind
    ((settles_readGiven fun value => settles_readTexts value _).bind ?_)
  exact settles_pure _

/-! ## Sections that are no tables -/

/-- A task ends in a failure, whatever the state. -/
def Stops {α : Type} (tree : FileTree) (good : σ → Prop) (task : Task σ α) : Prop :=
  ∃ failure, Settles tree good task (.error failure)

theorem stops_fail (failure : Failure) : Stops tree good (Task.fail failure : Task σ α) :=
  ⟨failure, settles_fail failure⟩

theorem Stops.bind {task : Task σ α} {next : α → Task σ β} (stops : Stops tree good task) :
    Stops tree good (task >>= next) := by
  obtain ⟨failure, settles⟩ := stops
  exact ⟨failure, settles.bind_error⟩

theorem Stops.after {task : Task σ α} {value : α} {next : α → Task σ β}
    (settles : Settles tree good task (.ok value)) (stops : Stops tree good (next value)) :
    Stops tree good (task >>= next) := by
  obtain ⟨failure, fails⟩ := stops
  exact ⟨failure, settles.bind fails⟩

theorem Misplaced.sectionOf {name : String}
    (misplaced : Misplaced document name) :
    ¬(sectionOf document name).IsTable := by
  obtain ⟨content, found, isGiven, other⟩ := misplaced
  rw [Settings.sectionOf, found]
  simpa only [isGiven, if_true] using other

/-- No limit is found in what is no table. -/
theorem readLimit_of_other (other : ¬part.IsTable) (name : String) :
    Stops tree good (readLimit part name : Task σ (Option Int)) ∨
      Settles tree good (readLimit part name : Task σ (Option Int)) (.ok none) := by
  unfold readLimit
  have noValue : part.get? name = none := by
    cases part with
    | table entries => exact absurd ⟨entries, rfl⟩ other
    | _ => rfl
  rw [noValue]
  cases holds? name part with
  | none => exact .inl (stops_fail _)
  | some held =>
    cases held with
    | false => exact .inr (settles_pure _)
    | true => exact .inl (stops_fail _)

theorem stops_of_readLimit (other : ¬part.IsTable) (name : String) {next : Option Int → Task σ β}
    (stops : Stops tree good (next none)) : Stops tree good (readLimit part name >>= next) := by
  rcases readLimit_of_other other name with fails | passes
  · exact fails.bind
  · exact stops.after passes

theorem stops_readEntry (other : ¬part.IsTable) (name : String) :
    Stops tree good (readEntry part name : Task σ (Option Toml)) := by
  cases part with
  | table entries => exact absurd ⟨entries, rfl⟩ other
  | _ => exact stops_fail _

/-- A section that is no table stops the reading. -/
theorem stops_readOverrides
    (misplaced : Misplaced document simplifierSection ∨ Misplaced document graphSection) :
    Stops tree good (readOverrides document : Task σ Overrides) := by
  unfold readOverrides
  dsimp only
  by_cases simplifier : Misplaced document simplifierSection
  · have other := simplifier.sectionOf
    refine stops_of_readLimit other _ (stops_of_readLimit other _ (stops_of_readLimit other _
      (stops_of_readLimit other _ ?_)))
    exact (stops_readEntry other _).bind
  · obtain ⟨entries, table, _⟩ := sectionOf_eq_table simplifier
    rw [table]
    refine .after (settles_readLimit _ _) (.after (settles_readLimit _ _)
      (.after (settles_readLimit _ _) (.after (settles_readLimit _ _) ?_)))
    refine .after (settles_readEntry _ _) (.after (settles_readGiven settles_readWrapperRules) ?_)
    exact (stops_readEntry (misplaced.resolve_left simplifier).sectionOf _).bind

end

/-! ## What has been read -/

section

variable {document : Document} {name key : String} {entries : List (String × Toml)}

variable {value : Toml}

theorem limit?_eq_some {limit : Int} :
    limit? value = some limit ↔ value = .integer limit ∧ 0 < limit := by
  cases value with
  | integer found =>
    by_cases positive : 0 < found
    · simp only [limit?, positive, if_true, Option.some.injEq, Toml.integer.injEq]
      constructor
      · rintro rfl
        exact ⟨rfl, positive⟩
      · exact And.left
    · simp only [limit?, positive, if_false, reduceCtorEq, false_iff, Toml.integer.injEq]
      rintro ⟨rfl, other⟩
      exact positive other
  | _ => simp [limit?]

/-- What is listed as a limit counts, and the default otherwise. -/
theorem isLimit_getD {fallback : Int}
    (sectionEntries : ∀ key value, Keyed.find? key entries = some value ↔
      Given document simplifierSection key value) :
    IsLimit document key fallback (((Keyed.find? key entries).bind limit?).getD fallback) := by
  cases found : (Keyed.find? key entries).bind limit? with
  | some limit =>
    obtain ⟨value, present, limited⟩ := Option.bind_eq_some_iff.mp found
    obtain ⟨rfl, positive⟩ := limit?_eq_some.mp limited
    exact .given ((sectionEntries _ _).mp present) positive
  | none =>
    refine .fallback fun value given => ?_
    rw [(sectionEntries _ _).mpr given, Option.bind_some] at found
    by_contra positive
    rw [limit?_eq_some.mpr ⟨rfl, Int.not_le.mp positive⟩] at found
    cases found

theorem IsLimit.positive {fallback limit : Int} (isLimit : IsLimit document key fallback limit)
    (fallbackPositive : 0 < fallback) :
    0 < limit := by
  cases isLimit with
  | given _ positive => exact positive
  | fallback _ => exact fallbackPositive

theorem text?_eq_some_iff {text : String} : value.text? = some text ↔ value = .string text := by
  cases value <;> simp [Toml.text?]

theorem wrapperRule?_eq_some {entry : Toml} {rule : String × String} :
    wrapperRule? entry = some rule ↔ WellFormed entry rule := by
  cases entry with
  | table entries =>
    obtain ⟨pattern, replacement⟩ := rule
    simp only [wrapperRule?, WellFormed, Toml.get?, Option.bind_eq_bind, Option.bind_eq_some_iff,
      text?_eq_some_iff, Option.pure_def, Option.some.injEq, Prod.mk.injEq, Toml.table.injEq,
      exists_eq_left']
    constructor
    · rintro ⟨_, patternFound, _, rfl, _, replacementFound, _, rfl, rfl, rfl⟩
      exact ⟨patternFound, replacementFound⟩
    · rintro ⟨patternFound, replacementFound⟩
      exact ⟨_, patternFound, _, rfl, _, replacementFound, _, rfl, rfl, rfl⟩
  | _ => simp [wrapperRule?, WellFormed, Toml.get?]

theorem rulesIn_filterMap (listed : List Toml) :
    RulesIn listed (listed.filterMap wrapperRule?) := by
  induction listed with
  | nil => exact .nil
  | cons entry rest ih =>
    cases found : wrapperRule? entry with
    | some rule =>
      rw [List.filterMap_cons_some found]
      exact .keep (wrapperRule?_eq_some.mp found) ih
    | none =>
      rw [List.filterMap_cons_none found]
      refine .skip (fun rule wellFormed => ?_) ih
      rw [wrapperRule?_eq_some.mpr wellFormed] at found
      cases found

/-- The rules that are listed count, and the default ones otherwise. -/
theorem areRules_getD {fallback : List (String × String)}
    (sectionEntries : ∀ key value, Keyed.find? key entries = some value ↔
      Given document simplifierSection key value) :
    AreRules document fallback
      (((Keyed.find? "wrappers" entries).bind listedRules?).getD fallback) := by
  cases found : Keyed.find? "wrappers" entries with
  | none =>
    refine .fallback fun listed given => ?_
    rw [(sectionEntries _ _).mpr given] at found
    cases found
  | some value =>
    have given := (sectionEntries _ _).mp found
    by_cases list : ∃ listed, value = .array listed
    · obtain ⟨listed, rfl⟩ := list
      exact .given given (rulesIn_filterMap listed)
    · have none : listedRules? value = none := by
        cases value with
        | array listed => exact absurd ⟨listed, rfl⟩ list
        | _ => rfl
      rw [Option.bind_some, none]
      refine .fallback fun listed other => list ⟨listed, ?_⟩
      rw [(sectionEntries _ _).mpr other] at found
      exact (Option.some.inj found).symm

/-- A sorted set is in order, whether it is given or not. -/
theorem AreTexts.pairwise {fallback texts : List String}
    (areTexts : AreTexts document key fallback SortedSetOf texts)
    (sorted : fallback.Pairwise (· < ·)) :
    texts.Pairwise (· < ·) := by
  cases areTexts with
  | given _ made => exact made.1
  | fallback _ => exact sorted

theorem textList?_eq_some {texts : List String} :
    value.textList? = some texts ↔ value = .array (texts.map .string) := by
  cases value with
  | array items =>
    rw [Toml.textList?, Toml.array.injEq]
    induction items generalizing texts with
    | nil => cases texts <;> simp
    | cons item rest ih =>
      cases texts with
      | nil => simp [List.mapM_cons, Option.bind_eq_some_iff]
      | cons text more =>
        simp [List.mapM_cons, Option.bind_eq_some_iff, text?_eq_some_iff, ih]
  | _ => simp [Toml.textList?]

/-- The texts that are listed count, and the default ones otherwise. -/
theorem areTexts_getD {fallback : List String} {madeOf : List String → List String → Prop}
    {make : List String → List String} (made : ∀ listed, madeOf listed (make listed))
    (sectionEntries : ∀ key value, Keyed.find? key entries = some value ↔
      Given document graphSection key value) :
    AreTexts document key fallback madeOf
      ((((Keyed.find? key entries).bind Toml.textList?).map make).getD fallback) := by
  cases found : (Keyed.find? key entries).bind Toml.textList? with
  | some listed =>
    obtain ⟨value, present, texts⟩ := Option.bind_eq_some_iff.mp found
    rw [textList?_eq_some.mp texts, sectionEntries] at present
    exact .given present (made listed)
  | none =>
    refine .fallback fun listed given => ?_
    rw [(sectionEntries _ _).mpr given, Option.bind_some, textList?_eq_some.mpr rfl] at found
    cases found

end

/-- What two sections set makes up the settings that the document says. -/
theorem reads_setBy {document : Document} {simplifier graph : List (String × Toml)}
    (simplifierEntries : ∀ key value, Keyed.find? key simplifier = some value ↔
      Given document simplifierSection key value)
    (graphEntries : ∀ key value, Keyed.find? key graph = some value ↔
      Given document graphSection key value) :
    Reads document (default.override (setBy simplifier graph)) := by
  have limit : ∀ {key : String} {fallback : Int}, IsLimit document key fallback
      (((Keyed.find? key simplifier).bind limit?).getD fallback) :=
    isLimit_getD simplifierEntries
  exact {
    maxDepth := limit
    maxProperties := limit
    collapseThreshold := limit
    maxNodes := limit
    positive := ⟨limit.positive (by decide), limit.positive (by decide),
      limit.positive (by decide), limit.positive (by decide)⟩
    wrapperRules := areRules_getD simplifierEntries
    dependencyDirs := areTexts_getD
      (fun _ => ⟨Text.pairwise_sortedSet _, fun _ => Text.mem_sortedSet⟩) graphEntries
    extraIgnores := by
      have texts : AreTexts document "ignore" default.extraIgnores Eq
          ((((Keyed.find? "ignore" graph).bind Toml.textList?).map id).getD
            default.extraIgnores) :=
        areTexts_getD (fun _ => rfl) graphEntries
      rwa [Option.map_id_apply] at texts }

section

variable {σ : Type} {tree : FileTree} {good : σ → Prop} {path : Path}

theorem Breaks.stops (breaks : Breaks tree path) :
    Stops tree good (load path : Task σ Settings) := by
  unfold load
  rcases breaks with unusable | ⟨document, holds, misplaced⟩
  · obtain ⟨failure, settles⟩ := unusable.settles
    exact ⟨failure, settles.bind_error⟩
  · exact .after holds.settles (stops_readOverrides misplaced).bind

/-- A file that loading copes with is loaded alike from all states. -/
theorem settles_load (copes : ¬Breaks tree path) :
    ∃ document settings, Holds tree path document ∧ Reads document settings ∧
      ∀ {σ : Type} (good : σ → Prop),
        Settles tree good (load path : Task σ Settings) (.ok settings) := by
  rcases unusable_or_holds tree path with unusable | ⟨document, holds⟩
  · exact absurd (.inl unusable) copes
  have simplifierPlaced : ¬Misplaced document simplifierSection :=
    fun misplaced => copes (.inr ⟨document, holds, .inl misplaced⟩)
  have graphPlaced : ¬Misplaced document graphSection :=
    fun misplaced => copes (.inr ⟨document, holds, .inr misplaced⟩)
  obtain ⟨simplifier, simplifierTable, simplifierEntries⟩ := sectionOf_eq_table simplifierPlaced
  obtain ⟨graph, graphTable, graphEntries⟩ := sectionOf_eq_table graphPlaced
  refine ⟨document, _, holds, reads_setBy simplifierEntries graphEntries, fun _ => ?_⟩
  exact holds.settles.bind
    ((settles_readOverrides simplifierTable graphTable).bind (settles_pure _))

end

/-- Loading is decided by the file alone.  From a file that loading copes with come the settings
that its document says, all limits positive, whatever the document holds under whatever keys; from
any other file comes a failure. -/
theorem load_exact {σ : Type} (tree : FileTree) (path : Path) :
    (Breaks tree path ∧
      ∃ failure, ∀ state : σ, (load path).outcomeFrom tree state = .error failure) ∨
    (¬Breaks tree path ∧ ∃ document settings, Holds tree path document ∧ Reads document settings ∧
      ∀ state : σ, (load path).outcomeFrom tree state = .ok settings) := by
  by_cases breaks : Breaks tree path
  · obtain ⟨failure, settles⟩ : Stops tree (fun _ : σ => True) (load path) := breaks.stops
    exact .inl ⟨breaks, failure, fun _ => settles.outcomeFrom_eq trivial⟩
  · obtain ⟨document, settings, holds, reads, settles⟩ := settles_load breaks
    exact .inr ⟨breaks, document, settings, holds, reads,
      fun _ => (settles fun _ => True).outcomeFrom_eq trivial⟩

/-- A file tree in which a number stands in the place of the section with the limits. -/
def numbered : FileTree :=
  ⟨.directory [("settings.toml", .file "simplifier = 5\n".toUTF8 none)], []⟩

/-- Loading asks the number for its limits. -/
theorem load_numbered :
    Holds numbered (.ofRoot ["settings.toml"]) [(simplifierSection, .integer 5)] ∧
      ∀ state : Unit, (load (.ofRoot ["settings.toml"])).outcomeFrom numbered state =
        .error .limitNotHeld := by
  have bytes : numbered.bytes? (.ofRoot ["settings.toml"]) = some "simplifier = 5\n".toUTF8 := rfl
  have text : numbered.text? (.ofRoot ["settings.toml"]) = some "simplifier = 5\n".toList := by
    simp only [FileTree.text?, bytes, Text.Utf8.decode?_toUTF8, Option.bind_eq_bind,
      Option.bind_some, Option.pure_def]
    rfl
  have holds : Holds numbered (.ofRoot ["settings.toml"]) [(simplifierSection, .integer 5)] :=
    .read text rfl
  have fails : Settles numbered (fun _ : Unit => True)
      (readOverrides [(simplifierSection, .integer 5)]) (.error .limitNotHeld) :=
    (settles_fail _).bind_error
  exact ⟨holds, fun _ => (holds.settles.bind fails.bind_error).outcomeFrom_eq trivial⟩

end Settings
end ModuleAtlas
