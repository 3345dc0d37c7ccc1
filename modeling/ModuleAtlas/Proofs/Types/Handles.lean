import Mathlib.Tactic.SplitIfs
import ModuleAtlas.Proofs.Types.Recalled

/-!
# Types as they are handed out

A session does not record which reference a cell was made for.  Their origins are kept beside it, as
a store typing is kept beside a store: more references get an origin, and none gets another one.  A
type is handed out when all references in it have the origins that they show, and a session is sound
when all that its cells and lists hold is handed out, and what the cell of a reference knows was
found by following just this reference.
-/

namespace ModuleAtlas

open Session ModuleAtlas.Types

/-! ## What types hold -/

section

variable {τ : Type}

/-- All types in a signature have a property. -/
inductive Signature.Each (holds : τ → Prop) : Signature τ → Prop where
  | mk {parameters : List (Parameter τ)} {returns : τ}
      (types : ∀ parameter ∈ parameters, holds parameter.type)
      (bound : ∀ parameter ∈ parameters, ∀ property ∈ parameter.bound, holds property.type)
      (ofReturns : holds returns) :
      Each holds ⟨parameters, returns⟩

/-- All types in members have a property. -/
inductive Members.Each (holds : τ → Prop) : Members τ → Prop where
  | mk {properties : List (Property τ)} {signatures : List (Signature τ)}
      (types : ∀ property ∈ properties, holds property.type)
      (ofSignatures : ∀ signature ∈ signatures, signature.Each holds) :
      Each holds ⟨properties, signatures⟩

/-- All values of type parameters in a scope have a property. -/
inductive Scope.Each (holds : τ → Prop) : Scope τ → Prop where
  | mk {source : SourceModule} {parameters : List (String × τ)} {pending : Option Nat}
      (values : ∀ parameter ∈ parameters, holds parameter.2) :
      Each holds ⟨source, parameters, pending⟩

/-- All types that members come from have a property. -/
inductive MemberSource.Each (holds : τ → Prop) : MemberSource τ → Prop where
  | known {members : Members τ} (ofMembers : members.Each holds) : Each holds (.known members)
  | body {node : Node} {scope : Scope τ} (ofScope : scope.Each holds) :
      Each holds (.body node scope)
  | interface {first : Node} {declarations : List Declaration} {scope : Scope τ}
      (ofScope : scope.Each holds) :
      Each holds (.interface first declarations scope)
  | class {declaration : Node} {scope : Scope τ} (ofScope : scope.Each holds) :
      Each holds (.class declaration scope)

variable {holds : τ → Prop} {members : Members τ}

theorem Members.Each.properties (each : members.Each holds) :
    ∀ property ∈ members.properties, holds property.type := by
  obtain ⟨types, _⟩ := each
  exact types

theorem Members.Each.signatures (each : members.Each holds) :
    ∀ signature ∈ members.signatures, signature.Each holds := by
  obtain ⟨_, ofSignatures⟩ := each
  exact ofSignatures

end

/-! ## Origins -/

/-- What a reference is made of. -/
structure Origin where
  code : String
  name : String
  scope : Scope TypeTerm
  arguments : List Node

/-- The code of a reference is its name, or its name with arguments. -/
def Origin.IsCoded (origin : Origin) : Prop :=
  origin.code = origin.name ∨ ∃ listed, origin.code = origin.name ++ "<" ++ listed ++ ">"

/-- The origins of the cells that references have. -/
abbrev Origins := Nat → Option Origin

/-- All origins stay as they are. -/
def Origins.Below (origins more : Origins) : Prop :=
  ∀ cell origin, origins cell = some origin → more cell = some origin

theorem Origins.Below.refl (origins : Origins) : origins.Below origins := fun _ _ => id

theorem Origins.Below.trans {origins more most : Origins}
    (first : origins.Below more) (second : more.Below most) : origins.Below most :=
  fun cell origin found => second cell origin (first cell origin found)

/-- A type that is handed out: signatures are there, only a union has a name of its own, and the
references in it have the origins that they show. -/
inductive IsHandle (origins : Origins) : TypeTerm → Prop where
  | primitive {name : String} : IsHandle origins (.primitive name)
  | literal {value : String} : IsHandle origins (.literal value)
  | verbatim {code : String} : IsHandle origins (.verbatim code)
  | array {element : TypeTerm} (ofElement : IsHandle origins element) :
      IsHandle origins (.array element)
  | tuple {elements : List TypeTerm} (each : ∀ element ∈ elements, IsHandle origins element) :
      IsHandle origins (.tuple elements)
  | union {label : String} {members : List TypeTerm}
      (each : ∀ member ∈ members, IsHandle origins member) :
      IsHandle origins (.union label members)
  | intersection {members : List TypeTerm} (each : ∀ member ∈ members, IsHandle origins member) :
      IsHandle origins (.intersection "" members)
  | function {first : Signature TypeTerm} {rest : List (Signature TypeTerm)}
      (each : ∀ signature ∈ first :: rest, signature.Each (IsHandle origins)) :
      IsHandle origins (.function "" (first :: rest))
  | object {cell : Nat} {code : String} {name : Option String} {source : MemberSource TypeTerm}
      (ofSource : source.Each (IsHandle origins)) :
      IsHandle origins (.object cell code name source)
  | reference {cell : Nat} {code name : String} {scope : Scope TypeTerm} {arguments : List Node}
      (made : origins cell = some ⟨code, name, scope, arguments⟩) :
      IsHandle origins (.reference cell code name scope arguments)

section Mono

variable {origins more : Origins}

mutual

/-- A handle stays one when further cells are made. -/
theorem IsHandle.mono (below : origins.Below more) :
    ∀ {type : TypeTerm}, IsHandle origins type → IsHandle more type
  | _, .primitive => .primitive
  | _, .literal => .literal
  | _, .verbatim => .verbatim
  | _, .array ofElement => .array (ofElement.mono below)
  | _, .tuple each => .tuple fun element member => (each element member).mono below
  | _, .union each => .union fun element member => (each element member).mono below
  | _, .intersection each => .intersection fun element member => (each element member).mono below
  | _, .function each => .function fun signature member =>
    signatureEach_mono below (each signature member)
  | _, .object ofSource => .object (sourceEach_mono below ofSource)
  | _, .reference made => .reference (below _ _ made)

theorem signatureEach_mono (below : origins.Below more) :
    ∀ {signature : Signature TypeTerm},
      signature.Each (IsHandle origins) → signature.Each (IsHandle more)
  | _, .mk types bound ofReturns =>
    .mk (fun parameter member => (types parameter member).mono below)
      (fun parameter member property inside =>
        (bound parameter member property inside).mono below)
      (ofReturns.mono below)

theorem membersEach_mono (below : origins.Below more) :
    ∀ {members : Members TypeTerm}, members.Each (IsHandle origins) → members.Each (IsHandle more)
  | _, .mk types ofSignatures =>
    .mk (fun property member => (types property member).mono below)
      (fun signature member => signatureEach_mono below (ofSignatures signature member))

theorem scopeEach_mono (below : origins.Below more) :
    ∀ {scope : Scope TypeTerm}, scope.Each (IsHandle origins) → scope.Each (IsHandle more)
  | _, .mk values => .mk fun parameter member => (values parameter member).mono below

theorem sourceEach_mono (below : origins.Below more) :
    ∀ {source : MemberSource TypeTerm}, source.Each (IsHandle origins) → source.Each (IsHandle more)
  | _, .known ofMembers => .known (membersEach_mono below ofMembers)
  | _, .body ofScope => .body (scopeEach_mono below ofScope)
  | _, .interface ofScope => .interface (scopeEach_mono below ofScope)
  | _, .class ofScope => .class (scopeEach_mono below ofScope)

end

end Mono

/-! ## Sound sessions -/

/-- A run has followed a reference to a type. -/
def Origin.LeadsTo (tree : FileTree) (origin : Origin) (target : TypeTerm) : Prop :=
  ∃ before after, targetOf origin.code origin.name origin.scope origin.arguments tree before =
    (.ok target, after)

/-- What is known about a cell is handed out, and the target of a reference was found by following
it. -/
structure Cell.IsSound
    (tree : FileTree) (origins : Origins) (origin : Option Origin) (known : Cell) : Prop where
  target : ∀ target ∈ known.target, IsHandle origins target
  followed : ∀ made ∈ origin, ∀ target ∈ known.target, made.LeadsTo tree target
  members : ∀ members ∈ known.members, members.Each (IsHandle origins)

/-- All that a session holds is handed out. -/
structure Session.IsSound (tree : FileTree) (origins : Origins) (session : Session) : Prop where
  room : ∀ cell origin, origins cell = some origin → cell < session.cells.size
  coded : ∀ cell origin, origins cell = some origin → origin.IsCoded
  scopes : ∀ cell origin, origins cell = some origin → origin.scope.Each (IsHandle origins)
  cells : ∀ (index : Nat) (known : Cell), session.cells[index]? = some known →
    known.IsSound tree origins (origins index)
  lists : ∀ (index : Nat) (values : List (String × TypeTerm)),
    session.parameterLists[index]? = some values → ∀ value ∈ values, IsHandle origins value.2

variable {tree : FileTree} {origins more : Origins} {session after : Session} {α β : Type}

theorem Cell.isSound_blank {origin : Option Origin} :
    (⟨none, none, none⟩ : Cell).IsSound tree origins origin := ⟨nofun, nofun, nofun⟩

theorem Cell.IsSound.mono {origin : Option Origin} {known : Cell}
    (sound : known.IsSound tree origins origin) (below : origins.Below more) :
    known.IsSound tree more origin :=
  ⟨fun target found => (sound.target target found).mono below, sound.followed,
    fun members found => membersEach_mono below (sound.members members found)⟩

namespace Session

theorem isSound_fresh (tree : FileTree) (root : Path) :
    (fresh root).IsSound tree fun _ => none where
  room _ _ impossible := by cases impossible
  coded _ _ impossible := by cases impossible
  scopes _ _ impossible := by cases impossible
  cells _ _ impossible := by simp [fresh] at impossible
  lists _ _ impossible := by simp [fresh] at impossible

variable (sound : session.IsSound tree origins)

include sound

/-- Only cells and lists of parameter values count. -/
theorem IsSound.of_eq (sameCells : after.cells = session.cells)
    (sameLists : after.parameterLists = session.parameterLists) :
    after.IsSound tree origins where
  room := by
    rw [sameCells]
    exact sound.room
  coded := sound.coded
  scopes := sound.scopes
  cells := by
    rw [sameCells]
    exact sound.cells
  lists := by
    rw [sameLists]
    exact sound.lists

theorem IsSound.cell (index : Nat) :
    (session.cell index).IsSound tree origins (origins index) := by
  unfold Session.cell
  rw [Array.getD_eq_getD_getElem?]
  cases found : session.cells[index]? with
  | none => exact Cell.isSound_blank
  | some known => exact sound.cells index known found

/-- A cell more, whether it has an origin or not. -/
theorem IsSound.push (below : origins.Below more)
    (new : ∀ cell origin, more cell = some origin → origins cell = some origin ∨
      cell = session.cells.size ∧ origin.IsCoded ∧ origin.scope.Each (IsHandle origins)) :
    IsSound tree more { session with cells := session.cells.push ⟨none, none, none⟩ } where
  room cell origin found := by
    rw [Array.size_push]
    rcases new cell origin found with old | ⟨rfl, _⟩
    · exact Nat.lt_succ_of_lt (sound.room cell origin old)
    · exact Nat.lt_succ_self _
  coded cell origin found := by
    rcases new cell origin found with old | ⟨_, coded, _⟩
    · exact sound.coded cell origin old
    · exact coded
  scopes cell origin found := by
    rcases new cell origin found with old | ⟨_, _, ofScope⟩
    · exact scopeEach_mono below (sound.scopes cell origin old)
    · exact scopeEach_mono below ofScope
  cells index known found := by
    rw [Array.getElem?_push] at found
    split at found
    · cases found
      exact Cell.isSound_blank
    · rename_i old
      have known := (sound.cells index known found).mono below
      refine ⟨known.target, fun made isMade => ?_, known.members⟩
      rcases new index made isMade with early | ⟨here, _⟩
      · exact known.followed made early
      · exact absurd here old
  lists index values found value member :=
    (sound.lists index values found value member).mono below

/-- A cell is changed to one that is sound. -/
theorem IsSound.modify {changed : Nat} {change : Cell → Cell}
    (kept : ∀ known, known.IsSound tree origins (origins changed) →
      (change known).IsSound tree origins (origins changed)) :
    IsSound tree origins { session with cells := session.cells.modify changed change } where
  room cell origin found := by
    rw [Array.size_modify]
    exact sound.room cell origin found
  coded := sound.coded
  scopes := sound.scopes
  cells index known found := by
    rw [Array.getElem?_modify] at found
    split at found
    · rename_i same
      subst same
      obtain ⟨old, present, rfl⟩ := Option.map_eq_some_iff.mp found
      exact kept old (sound.cells _ old present)
    · exact sound.cells index known found
  lists := sound.lists

end Session

/-! ## Tasks that hand out -/

/-- From sound sessions a task leads to sound sessions with more origins, and what it answers is of
a kind. -/
def Gives
    (tree : FileTree) (origins : Origins) (kind : Origins → α → Prop) (task : Task Session α) :
    Prop :=
  ∀ journal, journal.state.IsSound tree origins →
    ∃ more, origins.Below more ∧ (task tree journal).2.state.IsSound tree more ∧
      ∀ value, (task tree journal).1 = .ok value → kind more value

/-- What is of a kind stays so with more origins. -/
def Stays (kind : Origins → α → Prop) : Prop :=
  ∀ {origins more : Origins}, origins.Below more → ∀ value, kind origins value → kind more value

theorem stays_isHandle : Stays IsHandle := fun below _ => IsHandle.mono below

theorem Stays.all {kind : Origins → α → Prop} (stays : Stays kind) :
    Stays fun origins (values : List α) => ∀ value ∈ values, kind origins value :=
  fun below _ all value member => stays below value (all value member)

theorem Stays.option {kind : Origins → α → Prop} (stays : Stays kind) :
    Stays fun origins (found : Option α) => ∀ value ∈ found, kind origins value :=
  fun below _ all value member => stays below value (all value member)

variable {kind wider : Origins → α → Prop} {nextKind : Origins → β → Prop} {task : Task Session α}

/-- A step that changes neither cells nor lists of parameter values. -/
theorem gives_of_leaves
    (leaves : ∀ journal : Journal Session,
      (task tree journal).2.state.cells = journal.state.cells ∧
        (task tree journal).2.state.parameterLists = journal.state.parameterLists) :
    Gives tree origins (fun _ _ => True) task :=
  fun journal sound =>
    ⟨origins, .refl _, sound.of_eq (leaves journal).1 (leaves journal).2, fun _ _ => trivial⟩

theorem gives_pure {value : α} (ofKind : kind origins value) :
    Gives tree origins kind (pure value) := by
  refine fun _ sound => ⟨origins, .refl _, sound, fun found same => ?_⟩
  cases same
  exact ofKind

theorem gives_fail {failure : Failure} : Gives tree origins kind (Task.fail failure) :=
  fun _ sound => ⟨origins, .refl _, sound, nofun⟩

theorem gives_state :
    Gives tree origins (fun more known => known.IsSound tree more) Task.state := by
  refine fun _ sound => ⟨origins, .refl _, sound, fun found same => ?_⟩
  cases same
  exact sound

theorem gives_update {change : Session → Session}
    (kept : ∀ session, session.IsSound tree origins → (change session).IsSound tree origins) :
    Gives tree origins (fun _ _ => True) (Task.update change) :=
  fun _ sound => ⟨origins, .refl _, kept _ sound, fun _ _ => trivial⟩

/-- What gives something goes on to what gives something, over the cells made meanwhile. -/
theorem Gives.bind {next : α → Task Session β} (first : Gives tree origins kind task)
    (second : ∀ {more}, origins.Below more → ∀ value, kind more value →
      Gives tree more nextKind (next value)) :
    Gives tree origins nextKind (task >>= next) := by
  intro journal sound
  obtain ⟨more, below, between, ofKind⟩ := first journal sound
  cases ran : task tree journal with
  | mk outcome middle =>
    rw [ran] at between ofKind
    cases outcome with
    | error failure =>
      rw [Task.bind_of_error ran]
      exact ⟨more, below, between, nofun⟩
    | ok value =>
      rw [Task.bind_of_ok ran]
      obtain ⟨most, further, ended, ofNext⟩ :=
        second below value (ofKind value rfl) middle between
      exact ⟨most, below.trans further, ended, ofNext⟩

section

variable (gives : Gives tree origins kind task)

include gives

theorem Gives.mono
    (implied : ∀ {more}, origins.Below more → ∀ value, kind more value → wider more value) :
    Gives tree origins wider task := by
  intro journal sound
  obtain ⟨more, below, ended, ofKind⟩ := gives journal sound
  exact ⟨more, below, ended, fun value found => implied below value (ofKind value found)⟩

theorem Gives.map {image : α → β}
    (implied : ∀ {more}, origins.Below more → ∀ value, kind more value →
      nextKind more (image value)) :
    Gives tree origins nextKind (do return image (← task)) :=
  gives.bind fun below value ofKind => gives_pure (implied below value ofKind)

theorem Gives.anyhow :
    Gives tree origins (fun _ _ => True) task :=
  gives.mono fun _ _ _ => trivial

theorem Gives.image {image : α → β} :
    Gives tree origins (fun _ _ => True) (do return image (← task)) :=
  gives.map fun _ _ _ => trivial

end

/-- Each answer in a list is still of its kind when the last one is given. -/
theorem gives_mapM (stays : Stays nextKind) {step : α → Task Session β} {values : List α}
    (each : ∀ {more}, origins.Below more → ∀ value ∈ values,
      Gives tree more nextKind (step value)) :
    Gives tree origins (fun more answers => ∀ answer ∈ answers, nextKind more answer)
      (values.mapM step) := by
  induction values generalizing origins with
  | nil =>
    rw [List.mapM_nil]
    exact gives_pure (List.forall_mem_nil _)
  | cons value rest ih =>
    rw [List.mapM_cons]
    refine (each (.refl _) value List.mem_cons_self).bind fun below answer ofAnswer => ?_
    refine (ih fun further other member =>
      each (below.trans further) other (List.mem_cons_of_mem _ member)).map ?_
    exact fun further answers ofAnswers =>
      List.forall_mem_cons.mpr ⟨stays further answer ofAnswer, ofAnswers⟩

namespace Types

/-! ### Cells -/

theorem gives_newCell : Gives tree origins (fun _ _ => True) newCell := by
  refine fun _ sound => ⟨origins, .refl _, sound.push (.refl _) ?_, fun _ _ => trivial⟩
  exact fun _ _ => .inl

theorem gives_newObject {source : MemberSource TypeTerm} (ofSource : source.Each (IsHandle origins))
    (code : String) (name : Option String) :
    Gives tree origins IsHandle (newObject code name source) :=
  gives_newCell.map fun below _ _ => .object (sourceEach_mono below ofSource)

/-- A reference has its cell for its own. -/
theorem gives_newReference {scope : Scope TypeTerm} {name code : String} (arguments : List Node)
    (ofScope : scope.Each (IsHandle origins))
    (coded : code = "" ∨ code = name ∨ ∃ listed, code = name ++ "<" ++ listed ++ ">") :
    Gives tree origins IsHandle (newReference scope name code arguments) := by
  intro journal sound
  let origin : Origin :=
    ⟨if code.isEmpty then name else code, name, { scope with pending := none }, arguments⟩
  have isCoded : origin.IsCoded := by
    change (if code.isEmpty then name else code) = name ∨
      ∃ listed, (if code.isEmpty then name else code) = name ++ "<" ++ listed ++ ">"
    split
    · exact .inl rfl
    · rename_i visible
      exact coded.resolve_left (by simpa using visible)
  have ofOrigin : origin.scope.Each (IsHandle origins) := by
    obtain ⟨values⟩ := ofScope
    exact .mk values
  let more : Origins := fun cell =>
    if cell = journal.state.cells.size then some origin else origins cell
  have below : origins.Below more := fun cell known found => by
    have room := sound.room cell known found
    simp [more, Nat.ne_of_lt room, found]
  refine ⟨more, below, sound.push below fun cell known found => ?_, fun type made => ?_⟩
  · simp only [more] at found
    split at found
    · rename_i here
      cases found
      exact .inr ⟨here, isCoded, ofOrigin⟩
    · exact .inl found
  · cases made
    exact .reference (by simp [more, origin])

theorem gives_cellOf (index : Nat) :
    Gives tree origins (fun more known => known.IsSound tree more (more index)) (cellOf index) :=
  gives_state.map fun _ _ sound => sound.cell index

theorem gives_setCell {index : Nat} {change : Cell → Cell}
    (kept : ∀ known : Cell, known.IsSound tree origins (origins index) →
      (change known).IsSound tree origins (origins index)) :
    Gives tree origins (fun _ _ => True) (setCell index change) :=
  gives_update fun _ sound => sound.modify kept

end Types

end ModuleAtlas
