import ModuleAtlas.Proofs.Types.Handles

/-!
# Reading hands out types

All that is read in a scope is handed out if the values of the type parameters of the scope are.
-/

namespace ModuleAtlas
namespace Types

variable {tree : FileTree} {origins more : Origins} {scope : Scope TypeTerm} {read : Reader}
  {node part : Node}

/-! ## What is read -/

/-- Properties with types that are handed out. -/
abbrev HandledProperties (origins : Origins) (properties : List (Property TypeTerm)) : Prop :=
  ∀ property ∈ properties, IsHandle origins property.type

/-- A property with a type that is handed out, if there is one. -/
abbrev HandledProperty (origins : Origins) (found : Option (Property TypeTerm)) : Prop :=
  ∀ property ∈ found, IsHandle origins property.type

/-- A parameter with types that are handed out, if there is one. -/
abbrev HandledParameter (origins : Origins) (found : Option (Parameter TypeTerm)) : Prop :=
  ∀ parameter ∈ found, IsHandle origins parameter.type ∧ HandledProperties origins parameter.bound

/-- A signature with types that are handed out. -/
abbrev HandledSignature (origins : Origins) (signature : Signature TypeTerm) : Prop :=
  signature.Each (IsHandle origins)

/-- A scope where the values of type parameters are handed out. -/
abbrev HandledScope (origins : Origins) (scope : Scope TypeTerm) : Prop :=
  scope.Each (IsHandle origins)

theorem stays_property : Stays HandledProperty :=
  fun below _ all property found => (all property found).mono below

theorem stays_properties : Stays HandledProperties :=
  fun below _ all property member => (all property member).mono below

theorem stays_parameter : Stays HandledParameter :=
  fun below _ all parameter found =>
    ⟨(all parameter found).1.mono below, stays_properties below _ (all parameter found).2⟩

theorem handled_some
    {name : String} {isOptional : Bool} {type : TypeTerm} (handle : IsHandle origins type) :
    HandledProperty origins (some ⟨name, isOptional, type⟩) := by
  rintro _ ⟨⟩
  exact handle

theorem handled_filterMap {found : List (Option (Property TypeTerm))}
    (each : ∀ property ∈ found, HandledProperty origins property) :
    HandledProperties origins (found.filterMap id) := by
  intro property member
  obtain ⟨_, inside, rfl⟩ := List.mem_filterMap.mp member
  exact each _ inside property rfl

theorem isHandle_unionOf {types : List TypeTerm} (each : ∀ type ∈ types, IsHandle origins type) :
    IsHandle origins (unionOf types) := by
  rcases unionOf_cases types with single | ⟨members, inside, many⟩
  · exact each _ single
  · rw [many]
    exact .union fun member here => each member (inside here)

/-- With whatever origins there are by then, what is read is handed out. -/
def HandsOut (tree : FileTree) (origins : Origins) (read : Reader) : Prop :=
  ∀ {more}, origins.Below more → ∀ reading node, Gives tree more IsHandle (read reading node)

theorem HandsOut.later (handsOut : HandsOut tree origins read) (below : origins.Below more) :
    HandsOut tree more read :=
  fun further => handsOut (below.trans further)

theorem HandsOut.now (handsOut : HandsOut tree origins read) (reading : Reading) (node : Node) :
    Gives tree origins IsHandle (read reading node) :=
  handsOut (.refl _) reading node

/-! ## Types and values -/

theorem gives_codeOf (scope : Scope TypeTerm) (node : Node) :
    Gives tree origins (fun _ _ => True) (codeOf scope node) := by
  unfold codeOf
  split
  · exact gives_pure trivial
  · exact gives_fail

section

variable (handsOut : HandsOut tree origins read)

include handsOut

/-- The code of a generic use is its name and its arguments in angle brackets. -/
theorem gives_genericCode (name : String) (arguments : List Node) :
    Gives tree origins (fun _ code => ∃ listed, code = name ++ "<" ++ listed ++ ">")
      (genericCode read scope name arguments) := by
  have texts : Gives tree origins (fun _ _ => True)
      (arguments.mapM fun argument => do return (← read .type argument).text) :=
    (gives_mapM (fun _ _ => id) fun below argument _ =>
      (handsOut below .type argument).image).anyhow
  unfold genericCode
  split
  · rw [pure_bind]
    exact gives_pure ⟨_, rfl⟩
  · exact texts.map fun _ _ _ => ⟨_, rfl⟩

theorem gives_boundProperty (part : Node) :
    Gives tree origins HandledProperty (boundProperty read part) := by
  unfold boundProperty
  split
  · exact gives_pure (handled_some .primitive)
  · split
    · exact (handsOut.now _ _).map fun _ _ => handled_some
    · exact (gives_pure IsHandle.primitive).map fun _ _ => handled_some
  · dsimp only
    split
    · split
      · split
        · exact (handsOut.now _ _).map fun _ _ => handled_some
        · exact gives_pure (handled_some .primitive)
      · exact gives_pure (handled_some .primitive)
    · exact gives_pure (handled_some .primitive)
  · exact gives_pure nofun

theorem gives_boundProperties (pattern : Node) :
    Gives tree origins HandledProperties (boundProperties read pattern) :=
  (gives_mapM stays_property fun below part _ =>
    gives_boundProperty (handsOut.later below) part).map fun _ _ => handled_filterMap

theorem gives_parameterType (node : Node) :
    Gives tree origins IsHandle (parameterType read node) := by
  unfold parameterType
  split
  · exact handsOut.now _ _
  · exact handsOut.now _ _
  · exact gives_pure .primitive

/-- A parameter is read with a handle for its type. -/
theorem gives_parameterOf (node : Node) :
    Gives tree origins HandledParameter (parameterOf read node) := by
  have plain : ∀ {more : Origins} {parameter : Parameter TypeTerm},
      IsHandle more parameter.type → HandledProperties more parameter.bound →
        HandledParameter more (some parameter) := by
    rintro more parameter ofType ofBound _ ⟨⟩
    exact ⟨ofType, ofBound⟩
  unfold parameterOf
  split
  · exact gives_pure nofun
  · split
    · exact gives_pure nofun
    · split
      · exact gives_pure nofun
      · refine (gives_parameterType handsOut node).bind fun below type ofType => ?_
        dsimp only
        split
        · exact gives_pure (plain ofType (List.forall_mem_nil _))
        · split
          · exact (gives_boundProperties (handsOut.later below) _).map fun further bound ofBound =>
              plain (ofType.mono further) ofBound
          · rw [pure_bind]
            exact gives_pure (plain ofType (List.forall_mem_nil _))
        · exact gives_pure (plain ofType (List.forall_mem_nil _))
        · exact gives_pure (plain ofType (List.forall_mem_nil _))

theorem gives_inferredReturn (node : Node) :
    Gives tree origins IsHandle (inferredReturn read node) := by
  unfold inferredReturn
  split
  · refine gives_pure ?_
    split <;> exact .primitive
  · split
    · exact handsOut.now _ _
    · refine (gives_mapM stays_isHandle fun below value _ => handsOut below _ value).bind
        fun _ types ofTypes => ?_
      split
      · exact gives_pure .primitive
      · exact gives_pure (isHandle_unionOf ofTypes)

theorem gives_returnType (node : Node) : Gives tree origins IsHandle (returnType read node) := by
  unfold returnType
  split
  · exact handsOut.now _ _
  · refine (gives_inferredReturn handsOut node).bind fun _ inferred ofInferred => ?_
    split
    · exact gives_pure .verbatim
    · split
      · exact gives_pure .verbatim
      · exact gives_pure ofInferred

/-- A signature is read with handles for all its parts. -/
theorem gives_signatureOf (node : Node) :
    Gives tree origins HandledSignature (signatureOf read node) := by
  have single : ∀ more : Origins, ∀ parameter ∈ (node.child? "parameter").map fun parameter =>
      plainParameter parameter.text any false,
      IsHandle more parameter.type ∧ HandledProperties more parameter.bound := by
    intro more parameter found
    obtain ⟨_, _, rfl⟩ := Option.mem_map.mp found
    exact ⟨.primitive, List.forall_mem_nil _⟩
  have signed : ∀ {more : Origins} {parameters : List (Option (Parameter TypeTerm))}
      {returns : TypeTerm}, (∀ parameter ∈ parameters, HandledParameter more parameter) →
      IsHandle more returns →
      HandledSignature more ⟨((node.child? "parameter").map fun parameter =>
        plainParameter parameter.text any false).toList ++ parameters.filterMap id, returns⟩ := by
    intro more parameters returns ofParameters ofReturns
    have each : ∀ parameter ∈ ((node.child? "parameter").map fun parameter =>
        plainParameter parameter.text any false).toList ++ parameters.filterMap id,
        IsHandle more parameter.type ∧ HandledProperties more parameter.bound := by
      refine List.forall_mem_append.mpr ⟨fun parameter member => ?_, fun parameter member => ?_⟩
      · exact single more parameter (Option.mem_toList.mp member)
      · obtain ⟨_, inside, rfl⟩ := List.mem_filterMap.mp member
        exact ofParameters _ inside parameter rfl
    exact .mk (fun parameter member => (each parameter member).1)
      (fun parameter member => (each parameter member).2) ofReturns
  unfold signatureOf
  dsimp only
  split
  · refine (gives_mapM stays_parameter fun below parameter _ =>
      gives_parameterOf (handsOut.later below) parameter).bind fun below parameters each => ?_
    exact (gives_returnType (handsOut.later below) node).map fun further _ =>
      signed (stays_parameter.all further _ each)
  · rw [pure_bind]
    exact (gives_returnType handsOut node).map fun _ _ => signed (List.forall_mem_nil _)

theorem gives_functionOf (node : Node) : Gives tree origins IsHandle (functionOf read node) :=
  (gives_signatureOf handsOut node).map fun _ _ ofSignature =>
    .function (List.forall_mem_singleton.mpr ofSignature)

/-- A part that is read, or a type with a name where the part is missing. -/
theorem gives_readOr (reading : Reading) (part : Option Node) (name : String) :
    Gives tree origins IsHandle (match part with
      | some inner => read reading inner
      | none => return .primitive name) := by
  split
  · exact handsOut.now _ _
  · exact gives_pure .primitive

omit handsOut in
/-- What is known about a name in a scope, or else a reference to it. -/
theorem gives_parameterOr (ofScope : HandledScope origins scope) (name : String) :
    Gives tree origins IsHandle (match Keyed.find? name scope.parameters with
      | some value => return value
      | none => newReference scope name name []) := by
  split
  · rename_i value found
    obtain ⟨values⟩ := ofScope
    exact gives_pure (values (name, value) (mem_of_lookup_eq_some found))
  · exact gives_newReference [] ofScope (.inr (.inl rfl))

/-- An annotation is read as a handle. -/
theorem gives_ofAnnotated (ofScope : HandledScope origins scope) (node : Node) :
    Gives tree origins IsHandle (ofAnnotated read scope node) := by
  have several : ∀ nodes : List Node, Gives tree origins
      (fun more types => ∀ type ∈ types, IsHandle more type) (nodes.mapM (read .type)) :=
    fun nodes => gives_mapM stays_isHandle fun below member _ => handsOut below .type member
  unfold ofAnnotated
  split
  case h_12 =>
    refine gives_pure ?_
    split
    · exact .primitive
    · exact .literal
  case h_19 => exact gives_newReference [] ofScope (.inr (.inl rfl))
  case h_20 =>
    exact (gives_genericCode handsOut _ _).bind fun below code coded =>
      gives_newReference _ (scopeEach_mono below ofScope) (.inr (.inr coded))
  case h_21 =>
    split
    · exact (handsOut.now _ _).map fun _ _ => .array
    · exact gives_pure .verbatim
  case h_22 =>
    exact (gives_mapM stays_isHandle fun below _ _ => handsOut below _ _).map fun _ _ => .tuple
  case h_23 => exact (several _).map fun _ _ => .union
  case h_24 => exact (several _).map fun _ _ => .intersection
  case h_25 => exact gives_functionOf handsOut node
  case h_26 | h_27 =>
    exact (gives_codeOf scope node).bind fun below code _ =>
      gives_newObject (.body (scopeEach_mono below ofScope)) code none
  case h_32 => exact (gives_codeOf scope node).map fun _ _ _ => .verbatim
  all_goals first
    | exact gives_readOr handsOut _ _ _
    | exact gives_parameterOr ofScope _
    | exact gives_pure .primitive
    | exact gives_pure .literal

theorem gives_objectProperty (part : Node) :
    Gives tree origins HandledProperty (objectProperty read part) := by
  unfold objectProperty
  split
  · split
    · exact (handsOut.now _ _).map fun _ _ => handled_some
    · exact gives_pure nofun
  · exact gives_pure (handled_some .primitive)
  · exact (gives_functionOf handsOut part).map fun _ _ => handled_some
  · exact gives_pure nofun

theorem gives_ofObject (node : Node) : Gives tree origins IsHandle (ofObject read node) := by
  refine (gives_mapM stays_property fun below part _ =>
    gives_objectProperty (handsOut.later below) part).bind fun _ properties each => ?_
  exact gives_newObject (.known (.mk (handled_filterMap each) (List.forall_mem_nil _))) _ _

theorem gives_ofArray (node : Node) : Gives tree origins IsHandle (ofArray read node) := by
  refine (gives_mapM stays_isHandle fun below element _ => handsOut below _ element).bind
    fun _ types each => ?_
  split
  · exact gives_pure (.array .primitive)
  · exact gives_pure (.array (isHandle_unionOf each))

theorem gives_ofAssertion (node : Node) : Gives tree origins IsHandle (ofAssertion read node) := by
  unfold ofAssertion
  split
  · exact gives_pure .primitive
  · split
    · exact handsOut.now _ _
    · split
      · exact handsOut.now _ _
      · exact gives_pure .primitive

theorem gives_ofNew (ofScope : HandledScope origins scope) (node : Node) :
    Gives tree origins IsHandle (ofNew read scope node) := by
  unfold ofNew
  split
  · split
    · dsimp only
      split
      · rw [pure_bind]
        exact gives_newReference _ ofScope (.inr (.inl rfl))
      · exact (gives_genericCode handsOut _ _).bind fun below code coded =>
          gives_newReference _ (scopeEach_mono below ofScope) (.inr (.inr coded))
    · exact gives_pure .primitive
  · exact gives_pure .primitive

omit handsOut in
theorem isHandle_ofUnary (constant : Bool) (node : Node) :
    IsHandle origins (ofUnary constant node) := by
  unfold ofUnary
  dsimp only
  split_ifs <;> constructor

/-- A value is read as a handle. -/
theorem gives_ofValue (ofScope : HandledScope origins scope) (constant : Bool) (node : Node) :
    Gives tree origins IsHandle (ofValue read scope constant node) := by
  have literal : ∀ {value name : String}, Gives tree origins IsHandle
      (pure (if constant then .literal value else .primitive name)) := by
    intro value name
    refine gives_pure ?_
    split <;> constructor
  unfold ofValue
  split
  all_goals first
    | exact gives_readOr handsOut _ _ _
    | exact gives_pure .primitive
    | exact gives_functionOf handsOut node
    | exact gives_ofNew handsOut ofScope node
    | exact gives_ofObject handsOut node
    | exact gives_ofAssertion handsOut node
    | exact literal
    | exact gives_ofArray handsOut node
    | exact gives_pure (isHandle_ofUnary constant node)

end

/-- All that is read in a scope is handed out. -/
theorem handsOut_readWith (ofScope : HandledScope origins scope) (fuel : Nat) :
    HandsOut tree origins (readWith scope fuel) := by
  induction fuel generalizing origins with
  | zero => exact fun _ _ _ => gives_pure .primitive
  | succ fuel ih =>
    intro more below reading node
    have later := scopeEach_mono below ofScope
    have inner : HandsOut tree more (readWith scope fuel) := ih later
    cases reading with
    | type => exact gives_ofAnnotated inner later node
    | value constant => exact gives_ofValue inner later constant node

section

variable (ofScope : HandledScope origins scope)

include ofScope

theorem gives_typeOf (node : Node) : Gives tree origins IsHandle (typeOf scope node) :=
  handsOut_readWith ofScope _ (.refl _) _ _

theorem gives_valueType (constant : Bool) (node : Node) :
    Gives tree origins IsHandle (valueType scope constant node) :=
  handsOut_readWith ofScope _ (.refl _) _ _

theorem gives_signature (node : Node) :
    Gives tree origins HandledSignature (signature scope node) :=
  gives_signatureOf (handsOut_readWith ofScope _) node

end

end Types
end ModuleAtlas
