import ModuleAtlas.Proofs.Types.Tidy

/-!
# Reading tidy syntax

Types, values, signatures and members that are read from tidy syntax in a tidy scope are tidy.  Each
function that reads a list of members or of parameters is given exactly the names that the syntax
tells.
-/

namespace ModuleAtlas
namespace Types

variable {tree : FileTree} {scope : Scope TypeTerm} {read : Reader} {node part : Node}

theorem tidy_any : any.Tidy := .primitive _

/-- The parameter of a node is shown under the name that the syntax tells, and all its types are
tidy. -/
def Labelled (node : Node) (found : Option (Parameter TypeTerm)) : Prop :=
  ∀ parameter ∈ found, parameterLabel? node = some parameter.label ∧ parameter.type.Tidy ∧
    TidyProperties parameter.bound

theorem labelled_none : Labelled node none := fun _ impossible => by cases impossible

theorem labelled_some {parameter : Parameter TypeTerm}
    (labelled : parameterLabel? node = some parameter.label) (tidy : parameter.type.Tidy)
    (bound : TidyProperties parameter.bound) :
    Labelled node (some parameter) := by
  rintro _ ⟨⟩
  exact ⟨labelled, tidy, bound⟩

/-- Parameters are read in their order, and none has a label that is not written. -/
theorem labels_sublist {nodes : List Node} {found : List (Option (Parameter TypeTerm))}
    (labelled : Listwise Labelled nodes found) :
    ((found.filterMap id).map Parameter.label).Sublist (nodes.filterMap parameterLabel?) := by
  induction labelled with
  | nil => exact List.Sublist.slnil
  | @cons node parameter rest others head _ ih =>
    cases parameter with
    | none =>
      rw [List.filterMap_cons_none (by rfl)]
      exact ih.trans ((List.sublist_cons_self _ _).filterMap _)
    | some parameter =>
      rw [List.filterMap_cons_some (by rfl), List.filterMap_cons_some (head parameter rfl).1]
      exact ih.cons_cons _

/-! ## Types and values -/

section

variable (ofNodes : ∀ reading {node : Node}, node.Tidy →
  Tidies tree TypeTerm.Tidy (read reading node))

include ofNodes

theorem tidies_genericCode
    {arguments : List Node} (tidy : ∀ argument ∈ arguments, argument.Tidy) (name : String) :
    Tidies tree (fun _ => True) (genericCode read scope name arguments) := by
  unfold genericCode
  split
  · exact (tidies_pure trivial).bind fun _ (_ : True) => tidies_pure trivial
  · exact (tidies_mapM fun argument member => (ofNodes .type (tidy argument member)).image).image

theorem tidies_boundProperty (tidy : part.Tidy) :
    Tidies tree (Given part) (boundProperty read part) := by
  unfold boundProperty
  split
  case h_1 kind =>
    exact tidies_pure (given_some (by simp [givenName?, kind]) tidy_any)
  case h_2 kind =>
    have named : givenName? part = some (Node.textOf (part.child? "left")) := by
      simp [givenName?, kind]
    dsimp only
    split
    · exact (ofNodes _ (tidy.child? ‹_›)).map fun _ => given_some named
    · exact (tidies_pure tidy_any).map fun _ => given_some named
  case h_3 kind =>
    have named : givenName? part = some (propertyName (part.child? "key")) := by
      simp [givenName?, kind]
    dsimp only
    split
    · split
      · split
        · exact (ofNodes _ ((tidy.child? ‹_›).child? ‹_›)).map fun _ => given_some named
        · exact tidies_pure (given_some named tidy_any)
      · exact tidies_pure (given_some named tidy_any)
    · exact tidies_pure (given_some named tidy_any)
  case h_4 => exact tidies_pure given_none

theorem tidies_boundProperties (tidy : node.Tidy) (isPattern : node.kind = "object_pattern") :
    Tidies tree TidyProperties (boundProperties read node) := by
  have distinct : (givenNames node).Nodup := tidy.self.members (by simp [isPattern, listKinds])
  refine (tidies_mapM fun part member => ?_).map fun _ =>
    tidyProperties_of_given distinct fun _ => tidy.named
  exact tidies_boundProperty ofNodes (tidy.named member)

theorem tidies_parameterType (tidy : node.Tidy) :
    Tidies tree TypeTerm.Tidy (parameterType read node) := by
  unfold parameterType
  split
  · exact ofNodes _ (tidy.child? ‹_›)
  · exact ofNodes _ (tidy.child? ‹_›)
  · exact tidies_pure tidy_any

omit ofNodes in
theorem parameterLabel?_of_pattern {pattern : Node}
    (isParameter :
      ¬ (node.kind != "required_parameter" && node.kind != "optional_parameter") = true)
    (found : node.child? "pattern" = some pattern)
    (notReceiver : ¬ (pattern.kind == "this") = true) :
    parameterLabel? node = match pattern.kind with
      | "rest_pattern" => some ("..." ++ (pattern.lastNamed?.map Node.text).getD "args")
      | "object_pattern" | "array_pattern" => some (Text.collapse pattern.text)
      | _ => some pattern.text := by
  unfold parameterLabel?
  rw [if_neg isParameter, found]
  exact if_neg notReceiver

/-- A parameter of a tidy tree is read with its label and a tidy type. -/
theorem tidies_parameterOf (tidy : node.Tidy) :
    Tidies tree (Labelled node) (parameterOf read node) := by
  unfold parameterOf
  split
  · exact tidies_pure labelled_none
  rename_i isParameter
  split
  · exact tidies_pure labelled_none
  rename_i pattern found
  split
  · exact tidies_pure labelled_none
  rename_i notReceiver
  have labelled := parameterLabel?_of_pattern isParameter found notReceiver
  refine (tidies_parameterType ofNodes tidy).bind fun type ofType => ?_
  dsimp only
  split
  case h_1 kind =>
    exact tidies_pure (labelled_some (by simp [labelled, kind, Parameter.label]) ofType .nil)
  case h_2 kind =>
    have ofBound : ∀ bound, TidyProperties bound → Labelled node (some ⟨Text.collapse pattern.text,
        type, node.kind == "optional_parameter" || (node.child? "value").isSome, false, bound,
        .object⟩) :=
      fun bound ofBound => labelled_some (by simp [labelled, kind, Parameter.label]) ofType ofBound
    split
    · exact (tidies_boundProperties ofNodes (tidy.child? found) kind).map ofBound
    · exact (tidies_pure TidyProperties.nil).map ofBound
  case h_3 kind =>
    exact tidies_pure (labelled_some (by simp [labelled, kind, Parameter.label]) ofType .nil)
  case h_4 notRest notObject notArray =>
    refine tidies_pure (labelled_some ?_ ofType .nil)
    rw [labelled]
    split
    · exact absurd ‹_› notRest
    · exact absurd ‹_› notObject
    · exact absurd ‹_› notArray
    · simp [Parameter.label, plainParameter]

theorem tidies_inferredReturn (tidy : node.Tidy) :
    Tidies tree TypeTerm.Tidy (inferredReturn read node) := by
  unfold inferredReturn
  split
  · refine tidies_pure ?_
    split
    · exact tidy_any
    · exact .primitive _
  · rename_i body found
    have ofBody := tidy.child? found
    split
    · exact ofNodes _ ofBody
    · refine (tidies_mapM_all fun value member => ofNodes _ ?_).bind fun types ofTypes => ?_
      · exact Node.tidy_of_mem_returnsAmong (fun _ => ofBody.below) member
      · split
        · exact tidies_pure (.primitive _)
        · exact tidies_pure (tidy_unionOf ofTypes)

theorem tidies_returnType (tidy : node.Tidy) :
    Tidies tree TypeTerm.Tidy (returnType read node) := by
  unfold returnType
  split
  · exact ofNodes _ (tidy.child? ‹_›)
  · refine (tidies_inferredReturn ofNodes tidy).bind fun inferred ofInferred => ?_
    split
    · exact tidies_pure (.verbatim _)
    · split
      · exact tidies_pure (.verbatim _)
      · exact tidies_pure ofInferred

/-- The parameters of a signature are shown under the names that the syntax tells. -/
theorem tidies_signatureOf (tidy : node.Tidy) :
    Tidies tree (TidySignature TypeTerm.Tidy) (signatureOf read node) := by
  have gathered : ∀ (nodes : List Node) (found : List (Option (Parameter TypeTerm))),
      Listwise Labelled nodes found →
      (((node.child? "parameter").map Node.text).toList ++ nodes.filterMap parameterLabel?).Nodup →
      ∀ returns : TypeTerm, returns.Tidy → TidySignature TypeTerm.Tidy
        ⟨((node.child? "parameter").map fun parameter =>
          plainParameter parameter.text any false).toList ++ found.filterMap id, returns⟩ := by
    intro nodes found listed distinct returns ofReturns
    have single : ((node.child? "parameter").map fun parameter =>
        plainParameter parameter.text any false).toList.map Parameter.label =
          ((node.child? "parameter").map Node.text).toList := by
      cases node.child? "parameter" <;> rfl
    have each : ∀ parameter ∈ ((node.child? "parameter").map fun parameter =>
        plainParameter parameter.text any false).toList ++ found.filterMap id,
        parameter.type.Tidy ∧ TidyProperties parameter.bound := by
      refine List.forall_mem_append.mpr ⟨fun parameter member => ?_, fun parameter member => ?_⟩
      · obtain ⟨_, _, rfl⟩ := Option.map_eq_some_iff.mp (Option.mem_toList.mp member)
        exact ⟨tidy_any, .nil⟩
      · obtain ⟨_, someMember, rfl⟩ := List.mem_filterMap.mp member
        obtain ⟨_, _, ofNode⟩ := listed.exists_origin someMember
        exact (ofNode parameter rfl).2
    refine .mk ?_ (fun parameter member => (each parameter member).1)
      (fun parameter member => (each parameter member).2.toNamesApart)
      (fun parameter member => (each parameter member).2.types) ofReturns
    rw [List.map_append, single]
    exact distinct.sublist ((List.Sublist.refl _).append (labels_sublist listed))
  have distinct := tidy.self.parameters
  unfold parameterLabels at distinct
  unfold signatureOf
  dsimp only
  split
  · rename_i list found
    rw [found] at distinct
    refine (tidies_mapM fun parameter member =>
      tidies_parameterOf ofNodes ((tidy.child? found).named member)).bind fun listed ofListed => ?_
    exact (tidies_returnType ofNodes tidy).map (gathered _ listed ofListed distinct)
  · rename_i missing
    rw [missing] at distinct
    have nothing : Tidies tree (Listwise Labelled []) (pure []) := tidies_pure .nil
    refine nothing.bind fun listed ofListed => ?_
    exact (tidies_returnType ofNodes tidy).map (gathered [] listed ofListed distinct)

theorem tidies_functionOf (tidy : node.Tidy) :
    Tidies tree TypeTerm.Tidy (functionOf read node) :=
  (tidies_signatureOf ofNodes tidy).map fun _ ofSignature =>
    .function (List.forall_mem_singleton.mpr ofSignature)

theorem tidies_tupleMember (tidy : node.Tidy) :
    Tidies tree TypeTerm.Tidy (tupleMember read node) := by
  unfold tupleMember
  dsimp only
  refine ofNodes _ ?_
  split
  · cases found : node.child? "type" with
    | some inner => exact tidy.child? found
    | none => exact tidy
  · split
    · cases found : node.lastNamed? with
      | some inner => exact tidy.lastNamed? found
      | none => exact tidy
    · exact tidy

/-- A tidy annotation is read as a tidy type. -/
theorem tidies_ofAnnotated (ofScope : TidyScope TypeTerm.Tidy scope) (tidy : node.Tidy) :
    Tidies tree TypeTerm.Tidy (ofAnnotated read scope node) := by
  unfold ofAnnotated
  split
  case h_12 =>
    split
    · exact tidies_pure (.primitive _)
    · exact tidies_pure (.literal _)
  case h_17 | h_18 =>
    split
    · rename_i value found
      obtain ⟨_, values⟩ := ofScope
      exact tidies_pure (values _ (mem_of_lookup_eq_some found))
    · exact tidies_newReference ofScope (by simp) _ _
  case h_19 => exact tidies_newReference ofScope (by simp) _ _
  case h_20 =>
    refine (tidies_genericCode ofNodes (fun _ => tidy.typeArguments) _).bind fun code _ => ?_
    exact tidies_newReference ofScope (fun _ => tidy.typeArguments) _ code
  case h_21 =>
    split
    · exact (ofNodes _ (tidy.firstNamed? ‹_›)).map fun _ => .array
    · exact tidies_pure (.verbatim _)
  case h_22 =>
    refine (tidies_mapM_all fun part member => ?_).map fun _ => .tuple
    exact tidies_tupleMember ofNodes (tidy.named member)
  case h_23 | h_24 =>
    refine (tidies_mapM_all fun part member => ofNodes .type (tidy.flatten _ member)).map
      fun _ => ?_
    first
      | exact .union
      | exact .intersection
  case h_25 => exact tidies_functionOf ofNodes tidy
  case h_26 kind | h_27 kind =>
    refine (tidies_codeOf scope node).bind fun code _ => ?_
    exact tidies_newObject (.body tidy (by simp [kind, listKinds]) ofScope) _ _
  case h_32 => exact (tidies_codeOf scope node).map fun _ _ => .verbatim _
  all_goals first
    | exact tidies_pure (.primitive _)
    | exact tidies_pure (.literal _)
    -- A wrapper is what its last part is.
    | split
      · exact ofNodes _ (tidy.lastNamed? ‹_›)
      · exact tidies_pure tidy_any

theorem tidies_objectProperty (tidy : part.Tidy) :
    Tidies tree (Given part) (objectProperty read part) := by
  unfold objectProperty
  split
  case h_1 kind =>
    split
    · rename_i key value found foundValue
      have named : givenName? part = some (propertyName (some key)) := by
        simp [givenName?, kind, found]
      exact (ofNodes _ (tidy.child? foundValue)).map fun _ => given_some named
    · exact tidies_pure given_none
  case h_2 kind => exact tidies_pure (given_some (by simp [givenName?, kind]) (.primitive _))
  case h_3 kind =>
    have named : givenName? part = some (propertyName (part.child? "name")) := by
      simp [givenName?, kind]
    exact (tidies_functionOf ofNodes tidy).map fun _ => given_some named
  case h_4 => exact tidies_pure given_none

theorem tidies_ofObject (tidy : node.Tidy) (isObject : node.kind = "object") :
    Tidies tree TypeTerm.Tidy (ofObject read node) := by
  have distinct : (givenNames node).Nodup := tidy.self.members (by simp [isObject, listKinds])
  refine (tidies_mapM fun part member =>
    tidies_objectProperty ofNodes (tidy.named member)).bind fun found given => ?_
  have ofProperties := tidyProperties_of_given distinct (fun _ => tidy.named) given
  exact tidies_newObject (.known (.mk ofProperties.toNamesApart ofProperties.types (by simp))) _ _

theorem tidies_ofArray (tidy : node.Tidy) : Tidies tree TypeTerm.Tidy (ofArray read node) := by
  refine (tidies_mapM_all fun part member => ofNodes _ ?_).bind fun types ofTypes => ?_
  · exact tidy.named (List.mem_filter.mp member).1
  · split
    · exact tidies_pure (.array tidy_any)
    · exact tidies_pure (.array (tidy_unionOf ofTypes))

theorem tidies_ofAssertion (tidy : node.Tidy) :
    Tidies tree TypeTerm.Tidy (ofAssertion read node) := by
  unfold ofAssertion
  split
  · exact tidies_pure (.primitive _)
  · rename_i first rest parts
    have ofParts : ∀ part ∈ first :: rest, part.Tidy := fun part member =>
      tidy.named (parts ▸ member)
    obtain ⟨ofFirst, ofRest⟩ := List.forall_mem_cons.mp ofParts
    split
    · exact ofNodes _ ofFirst
    · split
      · exact ofNodes _ (ofRest _ (List.mem_of_getLast? ‹_›))
      · exact tidies_pure (.primitive _)

theorem tidies_ofNew (ofScope : TidyScope TypeTerm.Tidy scope) (tidy : node.Tidy) :
    Tidies tree TypeTerm.Tidy (ofNew read scope node) := by
  have ofArguments : ∀ argument ∈ typeArguments node, argument.Tidy := fun _ => tidy.typeArguments
  unfold ofNew
  split
  · split
    · dsimp only
      split
      · refine (tidies_pure trivial).bind fun _ (_ : True) => ?_
        exact tidies_newReference ofScope ofArguments _ _
      · refine (tidies_genericCode ofNodes ofArguments _).bind fun code _ => ?_
        exact tidies_newReference ofScope ofArguments _ code
    · exact tidies_pure (.primitive _)
  · exact tidies_pure (.primitive _)

/-- A tidy value is read as a tidy type. -/
theorem tidies_ofValue
    (ofScope : TidyScope TypeTerm.Tidy scope) (constant : Bool) (tidy : node.Tidy) :
    Tidies tree TypeTerm.Tidy (ofValue read scope constant node) := by
  have either : ∀ (condition : Bool) (value name : String), Tidies tree TypeTerm.Tidy
      (pure (if condition then TypeTerm.literal value else .primitive name)) := by
    intro condition value name
    cases condition
    · exact tidies_pure (.primitive _)
    · exact tidies_pure (.literal _)
  have ofOperator : (ofUnary constant node).Tidy := by
    unfold ofUnary
    dsimp only
    repeat' split
    all_goals first
      | exact .primitive _
      | exact .literal _
  unfold ofValue
  split
  all_goals first
    | exact either _ _ _
    | exact tidies_pure (.primitive _)
    | exact tidies_pure ofOperator
    | exact tidies_functionOf ofNodes tidy
    | exact tidies_ofObject ofNodes tidy ‹_›
    | exact tidies_ofArray ofNodes tidy
    | exact tidies_ofNew ofNodes ofScope tidy
    | exact tidies_ofAssertion ofNodes tidy
    -- A wrapper is what its first part is.
    | split
      · exact ofNodes _ (tidy.firstNamed? ‹_›)
      · exact tidies_pure (.primitive _)

end

/-! ## Reading in a scope -/

section

variable (ofScope : TidyScope TypeTerm.Tidy scope)

include ofScope

theorem tidies_readWith (fuel : Nat) (reading : Reading) {node : Node} (tidy : node.Tidy) :
    Tidies tree TypeTerm.Tidy (readWith scope fuel reading node) := by
  induction fuel generalizing reading node with
  | zero => exact tidies_pure tidy_any
  | succ fuel ih =>
    cases reading with
    | type => exact tidies_ofAnnotated ih ofScope tidy
    | value constant => exact tidies_ofValue ih ofScope constant tidy

theorem tidies_typeOf (tidy : node.Tidy) : Tidies tree TypeTerm.Tidy (typeOf scope node) :=
  tidies_readWith ofScope _ .type tidy

theorem tidies_valueType (constant : Bool) (tidy : node.Tidy) :
    Tidies tree TypeTerm.Tidy (valueType scope constant node) :=
  tidies_readWith ofScope _ (.value constant) tidy

theorem tidies_signature (tidy : node.Tidy) :
    Tidies tree (TidySignature TypeTerm.Tidy) (signature scope node) :=
  tidies_signatureOf (fun _ => tidies_readWith ofScope _ _) tidy

/-! ## Members -/

theorem tidies_signatureProperty (tidy : node.Tidy) :
    Tidies tree (Given node) (signatureProperty scope node) := by
  unfold signatureProperty
  split
  case h_1 kind =>
    have named : givenName? node = some (propertyName (node.child? "name")) := by
      simp [givenName?, kind]
    dsimp only
    split
    · exact (tidies_typeOf ofScope (tidy.child? ‹_›)).map fun _ => given_some named
    · exact (tidies_pure tidy_any).map fun _ => given_some named
  case h_2 kind =>
    have named : givenName? node = some (propertyName (node.child? "name")) := by
      simp [givenName?, kind]
    refine (tidies_signature ofScope tidy).map fun _ ofCall => given_some named ?_
    exact .function (List.forall_mem_singleton.mpr ofCall)
  case h_3 kind =>
    split
    · rename_i name index written foundName foundIndex foundType
      have named : givenName? node = some ("[" ++ name.text ++ ": " ++ index.text ++ "]") := by
        simp [givenName?, writtenName?, kind, foundName, foundIndex, foundType]
      exact (tidies_typeOf ofScope (tidy.child? foundType)).map fun _ => given_some named
    · exact tidies_pure given_none
  case h_4 => exact tidies_pure given_none

/-- The properties of a body are those that its members give, in their order. -/
theorem tidies_bodyMembers {members : List Node} (tidy : ∀ member ∈ members, member.Tidy) :
    Tidies tree
      (fun found => (∃ given, Listwise Given members given ∧
          found.properties = given.filterMap id) ∧
        ∀ signature ∈ found.signatures, TidySignature TypeTerm.Tidy signature)
      (bodyMembers scope members) := by
  induction members with
  | nil => exact tidies_pure ⟨⟨[], .nil, rfl⟩, by simp [Members.none]⟩
  | cons member rest ih =>
    obtain ⟨first, others⟩ := List.forall_mem_cons.mp tidy
    have ofRest := ih others
    unfold bodyMembers
    split
    · refine (tidies_signature ofScope first).bind fun call ofCall => ?_
      refine ofRest.map ?_
      rintro more ⟨⟨given, ofGiven, same⟩, ofSignatures⟩
      refine ⟨⟨none :: given, .cons given_none ofGiven, ?_⟩, ?_⟩
      · rw [List.filterMap_cons_none (by rfl)]
        exact same
      · exact List.forall_mem_cons.mpr ⟨ofCall, ofSignatures⟩
    · refine (tidies_signatureProperty ofScope first).bind fun property ofProperty => ?_
      refine ofRest.map ?_
      rintro more ⟨⟨given, ofGiven, same⟩, ofSignatures⟩
      refine ⟨⟨property :: given, .cons ofProperty ofGiven, ?_⟩, ofSignatures⟩
      rw [same]
      cases property <;> rfl

/-- The bodies of an interface may repeat names, within one of them or from one to another. -/
theorem tidies_interfaceParts {declarations : List Declaration}
    (tidy : ∀ declaration ∈ declarations, declaration.node.DeclaresTidily) :
    Tidies tree
      (fun parts => PlainProperties parts.1.properties ∧
        (∀ signature ∈ parts.1.signatures, TidySignature TypeTerm.Tidy signature) ∧
        ∀ base ∈ parts.2, base.Tidy)
      (interfaceParts scope declarations) := by
  induction declarations with
  | nil => exact tidies_pure ⟨⟨by simp [Members.none], by simp [Members.none]⟩,
      by simp [Members.none], by simp⟩
  | cons declaration rest ih =>
    obtain ⟨first, others⟩ := List.forall_mem_cons.mp tidy
    have ofBases : ∀ base ∈ ((declaration.node.namedChildren.filter fun child =>
        child.kind == "extends_type_clause").flatMap Node.namedChildren), base.Tidy := by
      intro base member
      obtain ⟨clause, clauseMember, inside⟩ := List.mem_flatMap.mp member
      have below := (List.mem_filter.mp (List.mem_filter.mp clauseMember).1).1
      exact first.part below (List.mem_filter.mp inside).1
    have later : ∀ own : Members TypeTerm, PlainProperties own.properties →
        (∀ signature ∈ own.signatures, TidySignature TypeTerm.Tidy signature) →
        Tidies tree
          (fun parts => PlainProperties parts.1.properties ∧
            (∀ signature ∈ parts.1.signatures, TidySignature TypeTerm.Tidy signature) ∧
            ∀ base ∈ parts.2, base.Tidy)
          (do
            let bases ← ((declaration.node.namedChildren.filter fun child =>
              child.kind == "extends_type_clause").flatMap Node.namedChildren).mapM (typeOf scope)
            let more ← interfaceParts scope rest
            return ((⟨own.properties ++ more.1.properties,
              own.signatures ++ more.1.signatures⟩ : Members TypeTerm), bases ++ more.2)) := by
      intro own ownPlain ownSignatures
      refine (tidies_mapM_all fun base member => tidies_typeOf ofScope (ofBases base member)).bind
        fun bases tidyBases => ?_
      refine (ih others).map ?_
      rintro ⟨more, moreBases⟩ ⟨morePlain, moreSignatures, moreTidy⟩
      exact ⟨⟨List.forall_mem_append.mpr ⟨ownPlain.plain, morePlain.plain⟩,
        List.forall_mem_append.mpr ⟨ownPlain.types, morePlain.types⟩⟩,
        List.forall_mem_append.mpr ⟨ownSignatures, moreSignatures⟩,
        List.forall_mem_append.mpr ⟨tidyBases, moreTidy⟩⟩
    unfold interfaceParts
    split
    · rename_i body found
      have ofMembers : ∀ member ∈ body.namedChildren, member.Tidy := fun member inside =>
        first.part (List.mem_of_find?_eq_some found) (List.mem_filter.mp inside).1
      refine (tidies_bodyMembers ofScope ofMembers).bind ?_
      rintro own ⟨⟨given, ofGiven, same⟩, ofSignatures⟩
      exact later own (same ▸ plainProperties_of_given ofMembers ofGiven) ofSignatures
    · refine (tidies_pure rfl).bind fun own (none : Members.none = own) => ?_
      exact none ▸ later .none ⟨by simp [Members.none], by simp [Members.none]⟩
        (by simp [Members.none])

/-- The type of a member of a class is tidy, and the member gives the name that it has. -/
def Typed (node : Node) (found : Option TypeTerm) : Prop :=
  ∀ type ∈ found, givenName? node = some (propertyName (node.child? "name")) ∧ type.Tidy

omit ofScope in
theorem typed_none : Typed node none := fun _ impossible => by cases impossible

omit ofScope in
theorem typed_some
    {type : TypeTerm} (named : givenName? node = some (propertyName (node.child? "name")))
    (tidy : type.Tidy) :
    Typed node (some type) := by
  rintro _ ⟨⟩
  exact ⟨named, tidy⟩

theorem tidies_memberType (tidy : node.Tidy) :
    Tidies tree (Typed node) (memberType scope node) := by
  have method (named : givenName? node = some (propertyName (node.child? "name"))) :
      Tidies tree (Typed node)
        (if node.hasChild "set" then pure none
          else do
            let call ← signature scope node
            return some (if node.hasChild "get" then call.returns else .function "" [call])) := by
    split
    · exact tidies_pure typed_none
    · refine (tidies_signature ofScope tidy).map fun call ofCall => typed_some named ?_
      split
      · obtain ⟨_, _, _, _, ofReturns⟩ := ofCall
        exact ofReturns
      · exact .function (List.forall_mem_singleton.mpr ofCall)
  unfold memberType
  split
  case h_1 kind =>
    have named : givenName? node = some (propertyName (node.child? "name")) := by
      simp [givenName?, kind]
    split
    · exact (tidies_typeOf ofScope (tidy.child? ‹_›)).map fun _ => typed_some named
    · exact (tidies_valueType ofScope false (tidy.child? ‹_›)).map fun _ => typed_some named
    · exact tidies_pure (typed_some named tidy_any)
  case h_2 kind | h_3 kind | h_4 kind => exact method (by simp [givenName?, kind])
  case h_5 => exact tidies_pure typed_none

omit ofScope in
theorem eq_propertyName_of_visibleName? {name : String} (visible : visibleName? node = some name) :
    name = propertyName (node.child? "name") := by
  simp only [visibleName?, Option.ite_none_left_eq_some] at visible
  obtain ⟨_, visible⟩ := visible
  cases found : node.child? "name" with
  | none =>
    rw [found] at visible
    cases visible
  | some written =>
    simp only [found, Option.ite_none_left_eq_some, Option.some.injEq] at visible
    exact visible.2.2.symm

/-- A class shows each name once. -/
theorem tidies_classProperties {found : List (Property TypeTerm)} {members : List Node}
    (known : TidyProperties found) (tidy : ∀ member ∈ members, member.Tidy) :
    Tidies tree TidyProperties (classProperties scope found members) := by
  induction members generalizing found with
  | nil => exact tidies_pure known
  | cons member rest ih =>
    obtain ⟨first, others⟩ := List.forall_mem_cons.mp tidy
    have skipped := ih known others
    unfold classProperties
    split
    · exact skipped
    rename_i name visible
    split
    · exact skipped
    rename_i new
    refine (tidies_memberType ofScope first).bind fun type ofType => ?_
    split
    · exact skipped
    · rename_i type
      obtain ⟨named, typeTidy⟩ := ofType type rfl
      rw [← eq_propertyName_of_visibleName? visible] at named
      refine ih (known.concat ?_ (first.self.plain name named) typeTidy) others
      rw [any_named_eq] at new
      simpa using new

theorem tidies_classBases (tidy : node.DeclaresTidily) :
    Tidies tree (fun bases => ∀ base ∈ bases, base.Tidy) (classBases scope node) := by
  have ofClauses : ∀ clause ∈ ((node.namedChildren.filter fun child =>
      child.kind == "class_heritage").flatMap Node.namedChildren).filter fun clause =>
      clause.kind == "extends_clause", clause.Tidy := by
    intro clause member
    obtain ⟨heritage, heritageMember, inside⟩ := List.mem_flatMap.mp (List.mem_filter.mp member).1
    have below := (List.mem_filter.mp (List.mem_filter.mp heritageMember).1).1
    exact tidy.part below (List.mem_filter.mp inside).1
  have nothing : ∀ base ∈ (none : Option TypeTerm), base.Tidy := fun _ impossible => by
    cases impossible
  refine (tidies_mapM_all fun clause member => ?_).map
    fun bases (ofBases : ∀ found ∈ bases, ∀ base ∈ found, base.Tidy) base member => ?_
  · have ofClause := ofClauses clause member
    split
    · split
      · refine (tidies_newReference ofScope (fun _ => ofClause.typeArguments) _ _).map ?_
        rintro _ tidyBase _ ⟨⟩
        exact tidyBase
      · exact tidies_pure nothing
    · exact tidies_pure nothing
  · obtain ⟨_, foundMember, rfl⟩ := List.mem_filterMap.mp member
    exact ofBases _ foundMember base rfl

end
end Types
end ModuleAtlas
