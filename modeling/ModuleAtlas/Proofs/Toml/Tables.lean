import ModuleAtlas.Toml.Document

/-!
# Documents are tables

Whatever the lines of a document fill, the value that all of it makes up stays a table.  So what is
read of a whole text is a table of entries and never a value of another kind.
-/

namespace ModuleAtlas

/-! ## What comes out of a reader -/

/-- Whatever a reader comes out with is of a kind. -/
def Yields {ε α : Type} (outcome : Except ε α) (kind : α → Prop) : Prop :=
  ∀ value, outcome = .ok value → kind value

section

variable {ε α β : Type} {kind : α → Prop}

theorem yields_ok {value : α} (ofKind : kind value) :
    Yields (.ok value : Except ε α) kind := by
  intro found same
  cases same
  exact ofKind

theorem yields_error (fault : ε) : Yields (.error fault) kind := nofun

theorem yields_any (outcome : Except ε α) : Yields outcome fun _ => True :=
  fun _ _ => trivial

theorem Yields.bind {outcome : Except ε β} {next : β → Except ε α} {first : β → Prop}
    (starts : Yields outcome first) (goesOn : ∀ value, first value → Yields (next value) kind) :
    Yields (outcome >>= next) kind := by
  cases outcome with
  | error fault => exact yields_error fault
  | ok value => exact goesOn value (starts value rfl)

theorem Yields.after {outcome : Except ε β} {next : β → Except ε α}
    (goesOn : ∀ value, Yields (next value) kind) :
    Yields (outcome >>= next) kind :=
  (yields_any outcome).bind fun value _ => goesOn value

end

namespace Toml

/-! ## Lines -/

/-- A value is a table. -/
def IsTable (value : Toml) : Prop := ∃ entries, value = .table entries

theorem isTable_store (key : String) (value : Option Toml) (names : List String) (level : Toml) :
    Yields (store key value names level) IsTable := by
  fun_cases store key value names level with
  | case1 => exact yields_error _
  | case2 => exact yields_ok ⟨_, rfl⟩
  | case3 => exact yields_ok ⟨_, rfl⟩
  | case4 => exact yields_error _
  | case5 => exact Yields.after fun _ => yields_ok ⟨_, rfl⟩
  | case6 => exact yields_error _

/-- A line is read into a level that is still a table. -/
theorem isTable_readLine (read : List Char → Bool → Except Fault Toml) (line : List Char)
    (level : Toml) :
    Yields (readLine read line level) fun result => IsTable result.1 := by
  unfold readLine
  refine Yields.after fun ⟨key, text, strict⟩ => Yields.after fun ⟨names, key⟩ =>
    Yields.after fun _ => Yields.after fun opens => ?_
  dsimp only
  split
  · refine (isTable_store key none names level).bind fun level table => ?_
    split
    · exact yields_error _
    · exact yields_ok table
  · exact Yields.after fun value =>
      (isTable_store key (some value) names level).bind fun _ table => yields_ok table

theorem isTable_readLines (read : List Char → Bool → Except Fault Toml) (lines : List (List Char))
    {level : Toml} (table : IsTable level) :
    Yields (readLines read lines level) IsTable := by
  induction lines generalizing level with
  | nil => exact yields_ok table
  | cons line rest ih =>
    rw [readLines]
    refine (isTable_readLine read line level).bind fun ⟨filled, pending⟩ filledTable => ?_
    cases pending with
    | none => exact ih filledTable
    | some pending => exact yields_ok filledTable

/-! ## Headers -/

namespace Document

/-- The value that all of a document makes up is a table. -/
def HasTable (document : Document) : Prop := IsTable document.root

/-- A change somewhere in a table leaves a table, unless it puts something else in its place. -/
theorem isTable_changeAt {change : Toml → Toml} {steps : List Step} {value : Toml}
    (table : IsTable value) (keeps : steps = [] → IsTable (change value)) :
    IsTable (changeAt change steps value) := by
  obtain ⟨entries, rfl⟩ := table
  cases steps with
  | nil => exact keeps rfl
  | cons step rest =>
    cases step with
    | key name => exact ⟨_, rfl⟩
    | last => exact ⟨entries, rfl⟩

variable {document : Document}

section

variable (table : document.HasTable) (level : List Step) (name : String)

include table level name

theorem hasTable_putAt (value : Toml) : (document.putAt level name value).HasTable := by
  refine isTable_changeAt table fun _ => ?_
  obtain ⟨entries, same⟩ := table
  rw [same]
  exact ⟨_, rfl⟩

/-- Meeting a name that is known leaves the document a table. -/
theorem hasTable_meetKnown (value : Toml) (isLast isArray : Bool) :
    Yields (document.meetKnown level name value isLast isArray) HasTable := by
  unfold meetKnown
  split
  · exact yields_ok table
  split
  · split
    · exact yields_error _
    · exact yields_ok table
  split
  · split
    · exact yields_ok (hasTable_putAt table _ _ _)
    · exact yields_error _
  · exact yields_error _

theorem hasTable_enterTable (entries : List (String × Toml)) (isLast isArray : Bool) :
    Yields (document.enterTable level name entries isLast isArray) fun result =>
      result.1.HasTable := by
  unfold enterTable
  dsimp only
  split
  · exact (hasTable_meetKnown table _ _ _ _ _).bind fun _ met => yields_ok met
  · exact yields_ok (hasTable_putAt table _ _ _)

theorem hasTable_enter (isLast isArray : Bool) :
    Yields (document.enter level name isLast isArray) fun result => result.1.HasTable := by
  unfold enter
  split
  · exact hasTable_enterTable table _ _ _ _ _
  · split
    · exact yields_error _
    · refine yields_ok ?_
      dsimp only
      split
      · exact table
      · exact hasTable_putAt table _ _ _
    · exact yields_error _
  · exact yields_error _
  · exact yields_error _

end

/-- Entering one name after the other leaves the document a table. -/
theorem hasTable_enterAll (isArray : Bool) (names : List String) (level : List Step)
    (table : document.HasTable) : Yields (enterAll isArray names level document) HasTable := by
  induction names generalizing level document with
  | nil => exact yields_ok table
  | cons name rest ih =>
    rw [enterAll]
    dsimp only
    split
    · exact yields_error _
    · refine (hasTable_enter table level name rest.isEmpty isArray).bind
        fun ⟨document, level⟩ entered => ?_
      dsimp only
      split
      · exact Yields.after fun level => ih level entered
      · exact ih level entered

theorem hasTable_readHeader (table : document.HasTable) (text close : List Char) (isArray : Bool) :
    Yields (document.readHeader text close isArray) HasTable := by
  unfold readHeader
  dsimp only
  split
  · exact yields_error _
  · exact Yields.after fun names => hasTable_enterAll isArray names [] table

/-! ## Whole texts -/

theorem hasTable_readMore (table : document.HasTable) (pending : Pending) (line : List Char) :
    Yields (document.readMore pending line) HasTable := by
  unfold readMore
  refine Yields.after fun closed => ?_
  split
  · exact Yields.after fun value => yields_ok (hasTable_putAt table _ _ value)
  · exact yields_ok table

theorem hasTable_readStart (table : document.HasTable) (line : List Char) :
    Yields (document.readStart line) HasTable := by
  -- Lines that fill the whole document fill what has been read so far, which is a table.
  have filled : ∀ {level : Toml}, (document.level = [] → IsTable level) →
      IsTable (changeAt (fun _ => level) document.level document.root) :=
    fun keeps => isTable_changeAt table keeps
  unfold readStart
  split
  · exact yields_error _
  · exact hasTable_readHeader table _ _ _
  · exact hasTable_readHeader table _ _ _
  · split
    · exact yields_error _
    · refine Yields.after fun entries => ?_
      have read : Yields (readLines readValue entries document.current)
          fun level => document.level = [] → IsTable level := by
        intro level read top
        refine isTable_readLines readValue entries ?_ level read
        rw [current, top]
        exact table
      exact read.bind fun level keeps => yields_ok (filled keeps)
  · split
    · exact yields_ok table
    · exact (isTable_readLine readValue line document.current).bind
        fun ⟨_, _⟩ level => yields_ok (filled fun _ => level)

/-- Reading a line leaves the document a table. -/
theorem hasTable_readLine (table : document.HasTable) (line : List Char) :
    Yields (document.readLine line) HasTable := by
  unfold readLine
  split
  · dsimp only
    split
    · exact yields_ok table
    · exact hasTable_readStart table _
  · rename_i pending _
    have goesOn : ∀ line, Yields
        (if line.isEmpty && pending.joined then .ok document else document.readMore pending line)
        HasTable := by
      intro line
      split
      · exact yields_ok table
      · exact hasTable_readMore table pending line
    exact goesOn _

theorem hasTable_foldlM (lines : List (List Char)) (table : document.HasTable) :
    Yields (lines.foldlM readLine document) HasTable := by
  induction lines generalizing document with
  | nil => exact yields_ok table
  | cons line rest ih =>
    rw [List.foldlM_cons]
    exact (hasTable_readLine table line).bind fun _ read => ih read

end Document

/-- A text that is read at all is read as a table. -/
theorem isTable_of_parse {text : List Char} {value : Toml} (parsed : parse text = .ok value) :
    IsTable value := by
  have all : Yields (parse text) IsTable := by
    unfold parse
    exact Yields.after fun lines =>
      (Document.hasTable_foldlM lines ⟨[], rfl⟩).bind fun _ table => yields_ok table
  exact all value parsed

end Toml
end ModuleAtlas
