import ModuleAtlas.Proofs.Shape.OnSight
import ModuleAtlas.Proofs.Shape.Twins
import ModuleAtlas.Proofs.Types.HandleSessions

/-!
# Types that are shown without being followed

A type whose text is the name of a primitive or built-in type, or a literal, is shown by this text
before its structure is looked at.  The structure agrees unless the text hides something: a type
that is found under the name, a union or intersection that has one member or a name, or an object
type whose code is a name.
-/

namespace ModuleAtlas

open ModuleAtlas.Types

variable {tree : FileTree} {origins : Origins} {scope : Scope TypeTerm} {code name text : String}
  {type target : TypeTerm}

/-! ## What is found under a name -/

/-- Whether something may be known in a scope under a name: the value of a type parameter, a
declaration of the module, or an import under the name or under the part in front of its last dot.
-/
def Scope.Knows (scope : Scope TypeTerm) (name : String) : Prop :=
  (Keyed.find? name scope.parameters).isSome = true ∨ scope.source.lookupType name ≠ [] ∨
    (scope.source.binding? name).isSome = true ∨
    ∃ nameSpace member, Text.cutLast? '.' name.toList = some (nameSpace, member) ∧
      (scope.source.binding? (String.ofList nameSpace)).isSome = true

/-- A type is found in a scope under a name: the value of a type parameter, what the module
declares, or what an import leads to. -/
inductive Scope.Finds (tree : FileTree) (scope : Scope TypeTerm) (name : String) : Prop where
  | parameter {value : TypeTerm} (bound : Keyed.find? name scope.parameters = some value)
  | declared (declares : scope.source.lookupType name ≠ [])
  | imported {binding : Binding} {exported shown : String} {arguments : List TypeTerm}
      {before after : Journal Session} {type : TypeTerm}
      (binds : scope.source.binding? name = some binding ∨
        ∃ nameSpace member, Text.cutLast? '.' name.toList = some (nameSpace, member) ∧
          scope.source.binding? (String.ofList nameSpace) = some binding)
      (found : imported? binding exported shown scope.source arguments tree before =
        (.ok (some type), after))

theorem Scope.Finds.knows (finds : scope.Finds tree name) : scope.Knows name := by
  cases finds with
  | parameter bound => exact .inl (by simp [bound])
  | declared declares => exact .inr (.inl declares)
  | imported binds found =>
    rcases binds with here | ⟨nameSpace, member, cut, there⟩
    · exact .inr (.inr (.inl (by simp [here])))
    · exact .inr (.inr (.inr ⟨nameSpace, member, cut, by simp [there]⟩))

namespace Types

/-- What a reference stands for under whose name nothing is found: a built-in type, an array, or
nothing but its code. -/
inductive IsUnknownTarget (code name : String) : TypeTerm → Prop where
  | primitive : IsUnknownTarget code name (.primitive name)
  | verbatim : IsUnknownTarget code name (.verbatim code)
  | array {element : TypeTerm} (isArray : name ∈ arrayNames) :
      IsUnknownTarget code name (.array element)

/-- A task that may end in any way, with a value of a kind if it answers. -/
abbrev EndsIn {α : Type} (tree : FileTree) (kind : α → Prop) (task : Task Session α) : Prop :=
  Task.Ends tree (fun _ => True) kind (fun _ => True) task

theorem endsIn_ran {α : Type} (task : Task Session α) :
    EndsIn tree (fun value => ∃ before after, task tree before = (.ok value, after)) task := by
  intro journal _
  rcases ran : task tree journal with ⟨failure | value, after⟩
  · exact ⟨_, after, rfl, .error trivial, trivial⟩
  · exact ⟨_, after, rfl, .ok ⟨journal, after, ran⟩, trivial⟩

/-- A type is found by looking for it only if the scope finds one. -/
theorem endsIn_named? (name : String) (arguments : List TypeTerm) :
    EndsIn tree (fun found => ∀ type ∈ found, scope.Finds tree name)
      (named? name scope.source arguments) := by
  unfold named?
  split
  · split
    · rename_i binding binds
      refine (endsIn_ran _).imp ?_ fun _ => id
      rintro _ ⟨before, after, ran⟩ type ⟨⟩
      exact .imported (.inl binds) ran
    · exact Task.ends_pure nofun
  · rename_i declares
    exact (endsIn_ran _).map fun _ _ _ _ => .declared declares

/-- A member of a name space is found by looking for it only if the scope finds one. -/
theorem endsIn_qualified? {nameSpace member : List Char}
    (cut : Text.cutLast? '.' name.toList = some (nameSpace, member)) (arguments : List TypeTerm) :
    EndsIn tree (fun found => ∀ type ∈ found, scope.Finds tree name)
      (qualified? (String.ofList nameSpace) (String.ofList member) scope.source arguments) := by
  unfold qualified?
  split
  · rename_i binding binds
    split
    · refine (endsIn_ran _).imp ?_ fun _ => id
      rintro _ ⟨before, after, ran⟩ type ⟨⟩
      exact .imported (.inr ⟨nameSpace, member, cut, binds⟩) ran
    · exact Task.ends_pure nofun
  · exact Task.ends_pure nofun

/-- Where a reference leads, a type is found under its name, or nothing is known but the name. -/
theorem endsIn_targetOf (arguments : List Node) :
    EndsIn tree (fun target => scope.Finds tree name ∨ IsUnknownTarget code name target)
      (targetOf code name scope arguments) := by
  have builtin : ∀ types, EndsIn tree
      (fun target => scope.Finds tree name ∨ IsUnknownTarget code name target)
      (do targetOf.orBuiltin code name (← named? name scope.source types)) := by
    intro types
    refine (endsIn_named? name types).bind fun found finds => ?_
    unfold targetOf.orBuiltin
    split
    · exact Task.ends_pure (.inl (finds _ rfl))
    · refine Task.ends_pure (.inr ?_)
      split
      · exact .primitive
      · exact .verbatim
  unfold targetOf
  refine (endsIn_ran _).bind fun types _ => ?_
  split
  · rename_i nameSpace member cut
    refine (endsIn_qualified? cut types).map fun found finds => ?_
    cases found with
    | none => exact .inr .verbatim
    | some type => exact .inl (finds type rfl)
  · split
    · rename_i bound _
      exact Task.ends_pure (.inl (.parameter bound))
    · split
      · split
        · rename_i isArray
          exact Task.ends_pure (.inr (.array (List.contains_iff_mem.mp isArray)))
        · exact builtin _
      · exact builtin _

end Types

namespace Shape

/-! ## Agreement -/

/-- What a type stands for is what its text says: a primitive type or a literal with this text, or
something of which nothing but the code is known. -/
inductive Agrees (text : String) : TypeTerm → Prop where
  | primitive {name : String} (same : (TypeTerm.primitive name).text = text) :
      Agrees text (.primitive name)
  | literal {value : String} (same : (TypeTerm.literal value).text = text) :
      Agrees text (.literal value)
  | verbatim {code : String} : Agrees text (.verbatim code)

/-- Members whose joined text can be taken for something else: a single one, which is joined with
nothing, or several of which the first opens a quote. -/
inductive Misleads : List TypeTerm → Prop where
  | single (member : TypeTerm) : Misleads [member]
  | quote {first second : TypeTerm} {rest : List TypeTerm} (opens : OpensQuote first.text) :
      Misleads (first :: second :: rest)

/-- Types whose structure is overlooked when they are shown on sight. -/
inductive Overlooked (tree : FileTree) : TypeTerm → Prop where
  | reference {cell : Nat} {code name : String} {scope : Scope TypeTerm} {arguments : List Node}
      (finds : scope.Finds tree name) :
      Overlooked tree (.reference cell code name scope arguments)
  | labelled {label : String} {members : List TypeTerm} (named : label ≠ "") :
      Overlooked tree (.union label members)
  | union {members : List TypeTerm} (misleads : Misleads members) :
      Overlooked tree (.union "" members)
  | intersection {members : List TypeTerm} (misleads : Misleads members) :
      Overlooked tree (.intersection "" members)
  | object {cell : Nat} {code : String} {name : Option String} {source : MemberSource TypeTerm}
      (unbraced : (Text.collapse code).toList.head? ≠ some '{') :
      Overlooked tree (.object cell code name source)

theorem exists_text_eq_collapse (type : TypeTerm) : ∃ source, type.text = Text.collapse source := by
  cases type <;> exact ⟨_, rfl⟩

theorem notOnSight_collapse_of_first
    {c : Char} (isMark : c ∈ marks) {source : String} (first : source.toList.head? = some c) :
    isOnSight (Text.collapse source) = false := by
  obtain ⟨rest, first⟩ := List.head?_eq_some_iff.mp first
  obtain ⟨more, known⟩ := Text.head_collapseChars (isBlank_of_mark isMark) rest
  have starts : (Text.collapse source).toList = c :: more := by
    rw [Text.collapse, String.toList_ofList, first, known]
  exact notOnSight_of_first isMark starts

theorem notOnSight_collapse_of_last
    {c : Char} (isMark : c ∈ marks) {source : String} (last : source.toList.getLast? = some c) :
    isOnSight (Text.collapse source) = false := by
  obtain ⟨before, last⟩ := List.getLast?_eq_some_iff.mp last
  refine notOnSight_of_last isMark ?_
  rw [Text.collapse, String.toList_ofList, last,
    Text.getLast?_collapseChars (isBlank_of_mark isMark)]

/-- Joined members are shown on sight only if they mislead. -/
theorem misleads_of_onSight {mark : Char} (isMark : mark ∈ marks) {members : List TypeTerm}
    (onSight : isOnSight (Text.collapse
      (Text.join (String.ofList [' ', mark, ' ']) (TypeTerm.texts members))) = true) :
    Misleads members := by
  cases members with
  | nil =>
    have empty : isOnSight (Text.collapse "") = false := by decide
    exact absurd onSight (Bool.eq_false_iff.mp empty)
  | cons first rest =>
    cases rest with
    | nil => exact .single first
    | cons second rest =>
      have joined : (Text.collapse (Text.join (String.ofList [' ', mark, ' '])
          (TypeTerm.texts (first :: second :: rest)))).toList =
          Text.collapseChars (first.text.toList ++ ' ' :: mark :: (' ' :: second.text.toList ++
            (TypeTerm.texts rest).flatMap fun other => [' ', mark, ' '] ++ other.toList)) := by
        rw [Text.collapse, String.toList_ofList, TypeTerm.texts, TypeTerm.texts,
          Text.toList_join, List.flatMap_cons, String.toList_ofList]
        rfl
      exact .quote (opensQuote_of_joined isMark (exists_text_eq_collapse first) joined onSight)

/-- A type that is no reference agrees with its text, or it is overlooked. -/
theorem agrees_or_overlooked (handle : IsHandle origins type) (settled : type.kind ≠ "reference")
    (onSight : isOnSight type.text = true) :
    Agrees type.text type ∨ Overlooked tree type := by
  cases handle with
  | primitive => exact .inl (.primitive rfl)
  | literal => exact .inl (.literal rfl)
  | verbatim => exact .inl .verbatim
  | @array element _ =>
    have hidden : isOnSight (TypeTerm.array element).text = false := by
      rw [TypeTerm.text]
      exact notOnSight_collapse_of_last (by decide : ']' ∈ marks) (by simp)
    exact absurd onSight (Bool.eq_false_iff.mp hidden)
  | @tuple elements _ =>
    have hidden : isOnSight (TypeTerm.tuple elements).text = false := by
      rw [TypeTerm.text]
      exact notOnSight_collapse_of_first (by decide : '[' ∈ marks) (by simp)
    exact absurd onSight (Bool.eq_false_iff.mp hidden)
  | @union label members _ =>
    by_cases named : label = ""
    · subst named
      exact .inr (.union (misleads_of_onSight (by decide) onSight))
    · exact .inr (.labelled named)
  | intersection _ => exact .inr (.intersection (misleads_of_onSight (by decide) onSight))
  | @function first rest _ =>
    obtain ⟨parameters, returns⟩ := first
    have hidden :
        isOnSight (TypeTerm.function "" (⟨parameters, returns⟩ :: rest)).text = false := by
      rw [TypeTerm.text, TypeTerm.firstSignatureText, TypeTerm.signatureText]
      exact notOnSight_collapse_of_first (by decide : '(' ∈ marks) (by simp)
    exact absurd onSight (Bool.eq_false_iff.mp hidden)
  | @object cell code name source _ =>
    refine .inr (.object fun first => ?_)
    obtain ⟨rest, braced⟩ := List.head?_eq_some_iff.mp first
    have hidden := notOnSight_of_first (by decide : '{' ∈ marks) braced
    exact absurd onSight (Bool.eq_false_iff.mp hidden)
  | reference => exact absurd rfl settled

/-! ## References -/

variable {cell : Nat} {arguments : List Node} {journal after : Journal Session}

/-- A reference that is shown on sight has no arguments in its code. -/
theorem name_of_onSight {origin : Origin} (coded : origin.IsCoded)
    (onSight : isOnSight (Text.collapse origin.code) = true) :
    origin.code = origin.name := by
  rcases coded with same | ⟨listed, same⟩
  · exact same
  · have hidden : isOnSight (Text.collapse origin.code) = false :=
      notOnSight_collapse_of_last (by decide : '>' ∈ marks) (by
        rw [same, String.toList_append]
        exact List.getLast?_concat)
    exact absurd onSight (Bool.eq_false_iff.mp hidden)

theorem settled_of_unknown (unknown : IsUnknownTarget code name target) :
    target.kind ≠ "reference" := by
  cases unknown <;> simp [TypeTerm.kind]

theorem agrees_of_unknown (onSight : isOnSight (Text.collapse name) = true)
    (unknown : IsUnknownTarget name name target) :
    Agrees (Text.collapse name) target := by
  have hidden : ∀ array ∈ arrayNames, isOnSight (Text.collapse array) = false := by decide
  cases unknown with
  | primitive => exact .primitive rfl
  | verbatim => exact .verbatim
  | array isArray => exact absurd onSight (Bool.eq_false_iff.mp (hidden name isArray))

/-- A reference is followed by one step and what follows from there. -/
theorem exists_step
    (ran : structureOf (.reference cell code name scope arguments) tree journal =
      (.ok target, after)) :
    ∃ first middle, step cell code name scope arguments tree journal = (.ok first, middle) ∧
      (first.kind ≠ "reference" → target = first) := by
  obtain ⟨first, middle, stepped, followed⟩ := Task.exists_of_bind_eq_ok ran
  refine ⟨first, middle, stepped, fun settled => ?_⟩
  rw [structureFrom_eq_pure settled] at followed
  cases followed
  rfl

section Sound

variable (sound : journal.state.IsSound tree origins)
  (made : origins cell = some ⟨code, name, scope, arguments⟩)

include sound made

/-- Where following a reference has led once, it leads every time. -/
theorem leadsTo_of_step
    (stepped : step cell code name scope arguments tree journal = (.ok target, after)) :
    Origin.LeadsTo tree ⟨code, name, scope, arguments⟩ target := by
  obtain ⟨_, _, _, ofKind⟩ := gives_step made journal sound
  exact (ofKind target (by rw [stepped])).2

/-- A reference agrees with its text, or a type is found under its name. -/
theorem reference_agrees_or_overlooked
    (onSight : isOnSight (TypeTerm.reference cell code name scope arguments).text = true)
    (ran : structureOf (.reference cell code name scope arguments) tree journal =
      (.ok target, after)) :
    Agrees (TypeTerm.reference cell code name scope arguments).text target ∨
      Overlooked tree (.reference cell code name scope arguments) := by
  rw [TypeTerm.text] at onSight ⊢
  obtain rfl : code = name := name_of_onSight (sound.coded cell _ made) onSight
  obtain ⟨first, middle, stepped, settles⟩ := exists_step ran
  obtain ⟨before, last, led⟩ := leadsTo_of_step sound made stepped
  have ends : EndsIn tree _ (targetOf code code scope arguments) := endsIn_targetOf arguments
  rcases ends.kind_of_answer trivial (by rw [led]) with finds | unknown
  · exact .inr (.reference finds)
  · rw [settles (settled_of_unknown unknown)]
    exact .inl (agrees_of_unknown onSight unknown)

end Sound

/-- A reference without arguments under whose name nothing may be known leads to its target by
itself. -/
theorem exists_targetOf_eq_pure (unknown : ¬scope.Knows name) :
    ∃ target, targetOf code name scope [] = pure target := by
  simp only [Scope.Knows, not_or, Bool.not_eq_true, Option.isSome_eq_false_iff,
    Option.isNone_iff_eq_none, not_exists, not_and, ne_eq, not_not] at unknown
  obtain ⟨unbound, undeclared, unimported, unqualified⟩ := unknown
  unfold targetOf
  rw [List.mapM_nil, pure_bind]
  split
  · rename_i nameSpace member cut
    unfold qualified?
    rw [unqualified nameSpace member cut]
    exact ⟨_, rfl⟩
  · rw [unbound]
    dsimp only
    unfold named?
    rw [undeclared, unimported]
    exact ⟨_, rfl⟩

/-- A reference is followed if it has no arguments to be read and nothing is to be looked up. -/
theorem exists_structure_of_unknown (sound : journal.state.IsSound tree origins)
    (made : origins cell = some ⟨code, name, scope, []⟩) (unknown : ¬scope.Knows name) :
    ∃ target after, structureOf (.reference cell code name scope []) tree journal =
      (.ok target, after) := by
  have steps : ∃ target middle, step cell code name scope [] tree journal =
      (.ok target, middle) := by
    have read : cellOf cell tree journal = (.ok (journal.state.cell cell), journal) := rfl
    obtain ⟨target, leads⟩ : ∃ target, targetOf code name scope [] = pure target :=
      exists_targetOf_eq_pure unknown
    unfold step
    rw [Task.bind_of_ok read, leads]
    cases (journal.state.cell cell).target with
    | some known => exact ⟨known, journal, rfl⟩
    | none => exact ⟨target, _, rfl⟩
  obtain ⟨target, middle, stepped⟩ := steps
  obtain ⟨before, last, led⟩ := leadsTo_of_step sound made stepped
  have ends : EndsIn tree _ (targetOf code name scope []) := endsIn_targetOf []
  rcases ends.kind_of_answer trivial (by rw [led]) with finds | ofUnknown
  · exact absurd finds.knows unknown
  · refine ⟨target, middle, (Task.bind_of_ok stepped).trans ?_⟩
    rw [structureFrom_eq_pure (settled_of_unknown ofUnknown)]
    rfl

/-! ## Types that never agree -/

/-- Types whose structure is never what their text says when they are shown on sight: unions,
intersections and object types, and references whose name the module itself declares as an
interface, a class or an enumeration. -/
inductive Misread : TypeTerm → Prop where
  | union {label : String} {members : List TypeTerm} : Misread (.union label members)
  | intersection {label : String} {members : List TypeTerm} : Misread (.intersection label members)
  | object {cell : Nat} {code : String} {name : Option String} {source : MemberSource TypeTerm} :
      Misread (.object cell code name source)
  | declared {cell : Nat} {code name : String} {scope : Scope TypeTerm} {arguments : List Node}
      {first : Declaration} {rest : List Declaration}
      (plain : Text.cutLast? '.' name.toList = none)
      (unbound : Keyed.find? name scope.parameters = none)
      (declares : scope.source.lookupType name = first :: rest)
      (shaped : first.node.kind ≠ "type_alias_declaration") :
      Misread (.reference cell code name scope arguments)

/-- A type with parts or members. -/
def IsStructured (type : TypeTerm) : Prop := type.kind ∈ ["union", "intersection", "object"]

theorem not_agrees_of_isStructured (structured : IsStructured type) : ¬Agrees text type := by
  intro agrees
  cases agrees <;> simp [IsStructured, TypeTerm.kind] at structured

/-- Declarations of which the first one is no alias stand for an object type or an enumeration. -/
theorem returns_declared
    {rest : List Declaration} {first : Declaration} {types : List TypeTerm} {source : SourceModule}
    (declares : source.lookupType name = first :: rest)
    (shaped : first.node.kind ≠ "type_alias_declaration") :
    Task.Returns (declared (first :: rest) source types name) IsStructured := by
  have object : ∀ code name source, Task.Returns (newObject code name source) IsStructured :=
    fun code name source => (Task.returns_any _).bind fun _ _ =>
      Task.returns_pure (by simp [IsStructured, TypeTerm.kind])
  have all : ((first :: rest).filter fun declaration =>
      structureKinds.contains declaration.node.kind) = first :: rest := by
    rw [List.filter_eq_self, ← declares]
    intro declaration member
    have isType := (List.mem_filter.mp member).2
    unfold Declaration.isType at isType
    rw [structureKinds, List.contains_cons, isType, Bool.or_true]
  unfold declared
  rw [all]
  refine (Task.returns_any _).bind fun scope _ => ?_
  split
  · exact object _ _ _
  · rename_i isAlias
    exact absurd isAlias shaped
  · exact Task.returns_pure (by simp [IsStructured, TypeTerm.kind])
  · exact object _ _ _

theorem returns_targetOf_of_declared {first : Declaration} {rest : List Declaration}
    (plain : Text.cutLast? '.' name.toList = none)
    (unbound : Keyed.find? name scope.parameters = none)
    (declares : scope.source.lookupType name = first :: rest)
    (shaped : first.node.kind ≠ "type_alias_declaration") (notArray : name ∉ arrayNames) :
    Task.Returns (targetOf code name scope arguments) IsStructured := by
  have found : ∀ types, Task.Returns
      (do targetOf.orBuiltin code name (← named? name scope.source types)) IsStructured := by
    intro types
    unfold named?
    rw [declares]
    dsimp only
    rw [bind_assoc]
    refine (returns_declared declares shaped).bind fun target structured => ?_
    exact Task.returns_pure structured
  unfold targetOf
  refine (Task.returns_any _).bind fun types _ => ?_
  rw [plain, unbound]
  dsimp only
  split
  · split
    · rename_i isArray
      exact absurd (List.contains_iff_mem.mp isArray) notArray
    · exact found _
  · exact found _

/-- A type that is shown on sight and misread stands for something that its text does not say. -/
theorem Misread.not_agrees (misread : Misread type) (sound : journal.state.IsSound tree origins)
    (handle : IsHandle origins type) (onSight : isOnSight type.text = true)
    (ran : structureOf type tree journal = (.ok target, after)) :
    ¬Agrees text target := by
  have settled : type.kind ≠ "reference" → IsStructured type → ¬Agrees text target := by
    intro settled structured
    rw [structureOf, structureFrom_eq_pure settled] at ran
    cases ran
    exact not_agrees_of_isStructured structured
  cases misread with
  | union | intersection | object =>
    exact settled (by simp [TypeTerm.kind]) (by simp [IsStructured, TypeTerm.kind])
  | @declared cell code name scope arguments first rest plain unbound declares shaped =>
    cases handle with
    | reference made =>
      rw [TypeTerm.text] at onSight
      obtain rfl : code = name := name_of_onSight (sound.coded cell _ made) onSight
      have hidden : ∀ array ∈ arrayNames, isOnSight (Text.collapse array) = false := by decide
      have notArray : code ∉ arrayNames := fun isArray =>
        absurd onSight (Bool.eq_false_iff.mp (hidden code isArray))
      obtain ⟨found, middle, stepped, settles⟩ := exists_step ran
      obtain ⟨before, last, led⟩ := leadsTo_of_step sound made stepped
      have structured : IsStructured found :=
        returns_targetOf_of_declared plain unbound declares shaped notArray _ _ _ _ led
      have settledFound : found.kind ≠ "reference" := fun isReference => by
        simp [IsStructured, isReference] at structured
      rw [settles settledFound]
      exact not_agrees_of_isStructured structured

end Shape

/-! ## What is shown on sight -/

namespace Simplifier

open Expansion Shape

/-- In some session a type is shown as a primitive type or as a literal, and no expansion is spent.
-/
def ShowsOnSight (simplifier : Simplifier) (type : TypeTerm) (text : String) : Prop :=
  ∃ (levels : Nat) (visited : List String) (expansions : Nat) (shape : Shape) (tree : FileTree)
    (journal after : Journal Session),
    simplifier.shapeAt levels visited type expansions tree journal =
      (.ok (shape, expansions), after) ∧
    (shape = .primitive text ∨ shape = .literal text)

/-- The shape of a text that is shown on sight. -/
def sightShape (text : String) : Shape :=
  if primitiveNames.contains text || builtinNames.contains text then .primitive text
  else .literal text

/-- Outside of all other types a type is shown on sight without expansions. -/
theorem shapeAt_of_onSight
    (simplifier : Simplifier) (levels : Nat) (onSight : isOnSight type.text = true) :
    simplifier.shapeAt (levels + 1) [] type = pure (sightShape type.text) := by
  rw [shapeAt, sightShape]
  simp only [List.contains_nil, Bool.and_false]
  unfold isOnSight at onSight
  cases named : primitiveNames.contains type.text || builtinNames.contains type.text with
  | true => rfl
  | false =>
    rw [named, Bool.false_or] at onSight
    rw [onSight]
    rfl

theorem simplify_of_onSight {simplifier : Simplifier} (deep : 0 < simplifier.settings.maxDepth)
    (onSight : isOnSight type.text = true) :
    simplifier.simplify 0 [] type = pure (sightShape type.text) := by
  obtain ⟨levels, enough⟩ : ∃ levels, simplifier.levelsAt 0 = levels + 1 :=
    ⟨simplifier.levelsAt 0 - 1, by unfold levelsAt; omega⟩
  rw [simplify, enough, shapeAt_of_onSight simplifier levels onSight]
  rfl

theorem showsOnSight_of_onSight (simplifier : Simplifier) (onSight : isOnSight type.text = true) :
    simplifier.ShowsOnSight type type.text := by
  have plain : sightShape type.text = .primitive type.text ∨
      sightShape type.text = .literal type.text := by
    unfold sightShape
    split
    · exact .inl rfl
    · exact .inr rfl
  refine ⟨1, [], 0, sightShape type.text, default, ⟨default, []⟩, ⟨default, []⟩, ?_, plain⟩
  rw [shapeAt_of_onSight simplifier 0 onSight]
  rfl

/-- What is shown while no expansion is spent has the text of the type, and is shown on sight. -/
theorem relates_shapeAt (simplifier : Simplifier) (levels : Nat) (visited : List String)
    (type : TypeTerm) :
    Relates (simplifier.shapeAt levels visited type) fun before shape left =>
      left = before → ∀ text, shape = .primitive text ∨ shape = .literal text →
        text = type.text ∧ isOnSight type.text = true := by
  have named : ∀ text, Relates (liftM (simplifier.nameOf type text) : Expansion Shape)
      fun before shape left => left = before ∧ ∃ name, shape = .reference name :=
    fun text => simplifier.relates_nameOf type text
  cases levels with
  | zero => exact relates_pure fun _ _ text shown => by simp [cut] at shown
  | succ levels =>
    unfold shapeAt
    dsimp only
    split
    · refine (named _).mono ?_
      rintro _ _ _ ⟨-, name, rfl⟩ - text shown
      simp at shown
    split
    · rename_i isName
      refine relates_pure fun _ _ text shown => ?_
      simp only [Shape.primitive.injEq, reduceCtorEq, or_false] at shown
      exact ⟨shown.symm, by rw [isOnSight, isName, Bool.true_or]⟩
    split
    · rename_i isLiteral
      refine relates_pure fun _ _ text shown => ?_
      simp only [Shape.literal.injEq, reduceCtorEq, false_or] at shown
      exact ⟨shown.symm, by rw [isOnSight, isLiteral, Bool.or_true]⟩
    refine relates_spend.bind fun granted => ?_
    cases granted with
    | true =>
      refine Relates.after_lift fun target => ?_
      obtain ⟨types, signatures⟩ := simplifier.shrinks_shapeAt levels
      refine (shrinks_expand (types _) (signatures _) type target).mono ?_
      intro between shape left fewer before spent same
      simp only [if_true] at spent
      omega
    | false =>
      refine (named _).mono ?_
      rintro _ _ _ ⟨-, name, rfl⟩ _ - - text shown
      simp at shown

theorem onSight_of_shown {simplifier : Simplifier} (shown : simplifier.ShowsOnSight type text) :
    text = type.text ∧ isOnSight type.text = true := by
  obtain ⟨levels, visited, expansions, shape, tree, journal, after, ran, plain⟩ := shown
  exact simplifier.relates_shapeAt levels visited type tree journal expansions shape expansions
    after ran rfl text plain

/-- A reference with arguments, or with a name under which something may be known. -/
inductive LeadsOn : TypeTerm → Prop where
  | arguments {cell : Nat} {code name : String} {scope : Scope TypeTerm} {arguments : List Node}
      (some : arguments ≠ []) :
      LeadsOn (.reference cell code name scope arguments)
  | known {cell : Nat} {code name : String} {scope : Scope TypeTerm} {arguments : List Node}
      (knows : scope.Knows name) :
      LeadsOn (.reference cell code name scope arguments)

/-- Following a type fails only if it leads on. -/
theorem leadsOn_of_failure {origins : Origins} {journal after : Journal Session} {failure : Failure}
    (sound : journal.state.IsSound tree origins) (handle : IsHandle origins type)
    (ran : structureOf type tree journal = (.error failure, after)) :
    LeadsOn type := by
  cases type with
  | reference cell code name scope arguments =>
    cases handle with
    | reference made =>
      by_cases some : arguments = []
      · subst some
        refine .known (Classical.not_not.mp fun unknown => ?_)
        obtain ⟨target, last, followed⟩ := exists_structure_of_unknown sound made unknown
        rw [ran] at followed
        cases followed
      · exact .arguments some
  | _ =>
    rw [structureOf, structureFrom_eq_pure (by simp [TypeTerm.kind])] at ran
    cases ran

/-- Whenever a type that an analysis has handed out is shown by its text alone, its structure,
looked at before or after, is a primitive type or a literal with this text or nothing but an
unresolved name, unless it is one of the types that are overlooked; and looking at it does not fail
unless it leads on.  Of the types that are overlooked all unions, intersections and object types
never agree with the text, nor does a reference to what its module declares as an interface, a class
or an enumeration. -/
theorem sight_agrees_with_structure
    {simplifier : Simplifier} {journal : Journal Session} {types : List TypeTerm} {text : String}
    (handed : HandedOut tree journal types) (member : type ∈ types)
    (shown : simplifier.ShowsOnSight type text) :
    text = type.text ∧
      (∀ target after, structureOf type tree journal = (.ok target, after) →
        (Agrees text target ∨ Overlooked tree type) ∧ (Misread type → ¬Agrees text target)) ∧
      ∀ failure after, structureOf type tree journal = (.error failure, after) → LeadsOn type := by
  obtain ⟨origins, sound, each⟩ := handed.exists_origins
  have handle := each type member
  obtain ⟨rfl, onSight⟩ := onSight_of_shown shown
  refine ⟨rfl, fun target after ran => ⟨?_, fun misread => ?_⟩, fun failure after ran => ?_⟩
  · cases type with
    | reference cell code name scope arguments =>
      cases handle with
      | reference made => exact reference_agrees_or_overlooked sound made onSight ran
    | _ =>
      rw [structureOf, structureFrom_eq_pure (by simp [TypeTerm.kind])] at ran
      cases ran
      exact agrees_or_overlooked handle (by simp [TypeTerm.kind]) onSight
  · exact misread.not_agrees sound handle onSight ran
  · exact leadsOn_of_failure sound handle ran

/-! ### Names of built-in types -/

/-- A use of the built-in type of dates in a module without declarations. -/
def dateType : TypeTerm := .reference 0 "Date" "Date" ⟨default, [], none⟩ []

theorem not_knows_date : ¬Scope.Knows ⟨default, [], none⟩ "Date" := by
  have plain : Text.cutLast? '.' "Date".toList = none := by decide
  rintro (bound | declared | imported | ⟨nameSpace, member, cut, -⟩)
  · cases bound
  · exact declared rfl
  · cases imported
  · rw [plain] at cut
    cases cut

/-- The built-in type of dates is shown by its name, and this is what it stands for. -/
theorem date_agrees_with_structure :
    ∃ journal target after, HandedOut default journal [dateType] ∧
      (ofSettings .default).ShowsOnSight dateType "Date" ∧
      structureOf dateType default journal = (.ok target, after) ∧ Agrees "Date" target := by
  have shown : (ofSettings .default).ShowsOnSight dateType "Date" :=
    showsOnSight_of_onSight _ (by decide : isOnSight dateType.text = true)
  have asked : typeOf ⟨default, [], none⟩ (.mk "type_identifier" true none 0 1 "Date" []) default
      ⟨.fresh (.ofRoot []), []⟩ =
      (.ok dateType,
        ⟨{ Session.fresh (.ofRoot []) with cells := #[⟨none, none, none⟩] }, []⟩) := rfl
  have handed := HandedOut.asked (.start (.ofRoot []) []) (.syntaxOf default _)
    (Task.bind_of_ok asked)
  obtain ⟨origins, sound, each⟩ := handed.exists_origins
  obtain ⟨-, agrees, -⟩ := sight_agrees_with_structure handed List.mem_cons_self shown
  cases each dateType List.mem_cons_self with
  | reference made =>
    obtain ⟨target, after, ran⟩ := exists_structure_of_unknown sound made not_knows_date
    refine ⟨_, target, after, handed, shown, ran, (agrees target after ran).1.resolve_right ?_⟩
    rintro ⟨finds⟩
    exact not_knows_date finds.knows

/-- An interface of the name of a built-in type. -/
def errorInterface : Node :=
  .mk "interface_declaration" true none 0 1 "" [
    .mk "type_identifier" true (some "name") 0 1 "Error" [],
    .mk "interface_body" true (some "body") 0 1 "" [
      .mk "property_signature" true none 0 1 "code: number" [
        .mk "property_identifier" true (some "name") 0 1 "code" [],
        .mk "type_annotation" true (some "type") 0 1 ": number" [
          .mk "predefined_type" true none 0 1 "number" []]]]]

def errorDeclaration : Declaration := ⟨"Error", "interface", errorInterface, true, none, none⟩

/-- The module that declares the interface. -/
def errorModule : SourceModule :=
  (SourceModule.bare (.ofRoot ["a.ts"]) .plain (.mk "program" true none 0 1 "" [])).declare
    errorDeclaration

/-- An interface under the name of a built-in type is shown by the name alone, though the name is
found in its module and stands for an object type with a property. -/
theorem declared_error_is_shown_as_builtin :
    ∃ type journal, declarationType errorDeclaration errorModule default
        ⟨.fresh (.ofRoot []), []⟩ = (.ok type, journal) ∧
      (ofSettings .default).simplify 0 [] type = pure (.primitive "Error") ∧
      ∃ target after, structureOf type default journal = (.ok target, after) ∧
        target.kind = "object" ∧ ¬Agrees "Error" target := by
  have answers : ((do
      let type ← declarationType errorDeclaration errorModule
      let target ← structureOf type
      return (type.text, target.kind) : Task Session (String × String)).outcomeFrom default
        (.fresh (.ofRoot []))).map id = .ok ("Error", "object") := by decide +kernel
  obtain ⟨found, last, ran, same⟩ := Task.exists_of_outcomeFrom answers
  obtain ⟨type, journal, declared, ran⟩ := Task.exists_of_bind_eq_ok ran
  obtain ⟨target, after, followed, ran⟩ := Task.exists_of_bind_eq_ok ran
  cases ran
  obtain ⟨text, kind⟩ := Prod.mk.inj same
  have onSight : isOnSight type.text = true := by
    rw [text]
    decide
  refine ⟨type, journal, declared, ?_, target, last, followed, kind, ?_⟩
  · rw [simplify_of_onSight (by decide) onSight, text]
    rfl
  · exact not_agrees_of_isStructured (by simp [IsStructured, kind])

end Simplifier

end ModuleAtlas
