import ModuleAtlas.Types.Structure

/-!
# What holds of reading in a scope

Reading types and members in a scope makes new cells and replaces the type parameters of the scope
in texts.  It does nothing else: it looks at no cell, it follows no reference and it leads to no
other module.  So a property of tasks that these two steps have, and that sequences of tasks keep,
holds of all reading in the scope.
-/

namespace ModuleAtlas

open ModuleAtlas.Types

/-- A property of tasks that sequences of tasks keep. -/
structure Sequential (holds : ∀ α : Type, Task Session α → Prop) : Prop where
  pure {α : Type} (value : α) : holds α (pure value)
  bind {α β : Type} {task : Task Session α} {next : α → Task Session β} :
    holds α task → (∀ value, holds β (next value)) → holds β (task >>= next)

/-- A property of tasks that the steps of reading in a scope have as well. -/
structure Reads (holds : ∀ α : Type, Task Session α → Prop) (scope : Scope TypeTerm) : Prop extends
    Sequential holds where
  newCell : holds _ newCell
  codeOf (node : Node) : holds _ (codeOf scope node)

variable {holds : ∀ α : Type, Task Session α → Prop} {scope : Scope TypeTerm} {α β : Type}

namespace Sequential

variable (sequential : Sequential holds)

include sequential

theorem map {task : Task Session α} {image : α → β} (first : holds _ task) :
    holds _ (do return image (← task)) :=
  sequential.bind first fun _ => sequential.pure _

theorem mapM {step : α → Task Session β} (each : ∀ value, holds _ (step value)) (values : List α) :
    holds _ (values.mapM step) := by
  induction values with
  | nil =>
    rw [List.mapM_nil]
    exact sequential.pure []
  | cons value rest ih =>
    rw [List.mapM_cons]
    exact sequential.bind (each value) fun _ => sequential.map ih

end Sequential

namespace Types

/-- What becomes of a list of types is one of them, or a union of some of them. -/
theorem unionOf_cases (types : List TypeTerm) :
    unionOf types ∈ types ∨ ∃ members ⊆ types, unionOf types = .union "" members := by
  have gathered : ∀ (rest : List TypeTerm) (found : List (String × TypeTerm)),
      rest ⊆ types → found.map Prod.snd ⊆ types →
      (rest.foldl
        (fun (found : List (String × TypeTerm)) type =>
          if Keyed.has type.text found then found else found ++ [(type.text, type)])
        found).map Prod.snd ⊆ types := by
    intro rest
    induction rest with
    | nil => exact fun _ _ known => known
    | cons type rest ih =>
      intro found inside known
      obtain ⟨here, others⟩ := List.cons_subset.mp inside
      refine ih _ others ?_
      dsimp only
      split
      · exact known
      · rw [List.map_append]
        exact List.append_subset.mpr ⟨known, List.cons_subset.mpr ⟨here, List.nil_subset _⟩⟩
  have distinct := gathered types [] (List.Subset.refl types) (List.nil_subset types)
  unfold unionOf
  dsimp only
  split
  · rename_i single same
    rw [same] at distinct
    exact .inl (distinct List.mem_cons_self)
  · exact .inr ⟨_, distinct, rfl⟩

variable {read : Reader} (reads : Reads holds scope)

include reads

theorem reads_newObject (code : String) (name : Option String) (source : MemberSource TypeTerm) :
    holds _ (newObject code name source) :=
  reads.map reads.newCell

theorem reads_newReference (name code : String) (arguments : List Node) :
    holds _ (newReference scope name code arguments) :=
  reads.map reads.newCell

/-! ## Types and values -/

section

variable (ofNodes : ∀ reading node, holds _ (read reading node))

include ofNodes

theorem reads_genericCode (name : String) (arguments : List Node) :
    holds _ (genericCode read scope name arguments) := by
  unfold genericCode
  split
  · exact reads.bind (reads.pure _) fun _ => reads.pure _
  · refine reads.bind (reads.mapM (fun argument => ?_) arguments) fun _ => reads.pure _
    exact reads.map (ofNodes .type argument)

theorem reads_boundProperty (part : Node) : holds _ (boundProperty read part) := by
  unfold boundProperty
  split
  · exact reads.pure _
  · split
    · exact reads.map (ofNodes _ _)
    · exact reads.map (reads.pure _)
  · dsimp only
    split
    · split
      · split
        · exact reads.map (ofNodes _ _)
        · exact reads.pure _
      · exact reads.pure _
    · exact reads.pure _
  · exact reads.pure _

theorem reads_boundProperties (pattern : Node) : holds _ (boundProperties read pattern) :=
  reads.map (reads.mapM (reads_boundProperty reads ofNodes) _)

theorem reads_parameterType (node : Node) : holds _ (parameterType read node) := by
  unfold parameterType
  split
  · exact ofNodes _ _
  · exact ofNodes _ _
  · exact reads.pure _

theorem reads_parameterOf (node : Node) : holds _ (parameterOf read node) := by
  unfold parameterOf
  split
  · exact reads.pure _
  · split
    · exact reads.pure _
    · split
      · exact reads.pure _
      · refine reads.bind (reads_parameterType reads ofNodes node) fun type => ?_
        dsimp only
        split
        · exact reads.pure _
        · split
          · exact reads.map (reads_boundProperties reads ofNodes _)
          · exact reads.map (reads.pure _)
        · exact reads.pure _
        · exact reads.pure _

theorem reads_inferredReturn (node : Node) : holds _ (inferredReturn read node) := by
  unfold inferredReturn
  split
  · exact reads.pure _
  · split
    · exact ofNodes _ _
    · refine reads.bind (reads.mapM (ofNodes _) _) fun types => ?_
      split
      · exact reads.pure _
      · exact reads.pure _

theorem reads_returnType (node : Node) : holds _ (returnType read node) := by
  unfold returnType
  split
  · exact ofNodes _ _
  · refine reads.bind (reads_inferredReturn reads ofNodes node) fun inferred => ?_
    split
    · exact reads.pure _
    · split
      · exact reads.pure _
      · exact reads.pure _

theorem reads_signatureOf (node : Node) : holds _ (signatureOf read node) := by
  unfold signatureOf
  dsimp only
  split
  · refine reads.bind (reads.mapM (reads_parameterOf reads ofNodes) _) fun _ => ?_
    exact reads.map (reads_returnType reads ofNodes node)
  · exact reads.bind (reads.pure _) fun _ => reads.map (reads_returnType reads ofNodes node)

theorem reads_functionOf (node : Node) : holds _ (functionOf read node) :=
  reads.map (reads_signatureOf reads ofNodes node)

/-- What is read of a node that may be missing. -/
theorem reads_orElse (reading : Reading) (otherwise : TypeTerm) (node : Option Node) :
    holds _ (match node with
      | some inner => read reading inner
      | none => pure otherwise) := by
  split
  · exact ofNodes _ _
  · exact reads.pure _

/-- What holds of the steps of reading holds of reading an annotation. -/
theorem reads_ofAnnotated (node : Node) :
    holds _ (ofAnnotated read scope node) := by
  have wrapped := reads_orElse reads ofNodes .type any node.lastNamed?
  unfold ofAnnotated
  split
  case h_12 =>
    split
    · exact reads.pure _
    · exact reads.pure _
  case h_17 | h_18 =>
    split
    · exact reads.pure _
    · exact reads_newReference reads _ _ []
  case h_19 => exact reads_newReference reads _ _ []
  case h_20 =>
    refine reads.bind (reads_genericCode reads ofNodes _ _) fun code => ?_
    exact reads_newReference reads _ code _
  case h_21 =>
    split
    · exact reads.map (ofNodes _ _)
    · exact reads.pure _
  case h_22 => exact reads.map (reads.mapM (fun _ => ofNodes _ _) _)
  case h_23 | h_24 => exact reads.map (reads.mapM (ofNodes .type) _)
  case h_25 => exact reads_functionOf reads ofNodes node
  case h_26 | h_27 =>
    exact reads.bind (reads.codeOf node) fun _ => reads_newObject reads _ _ _
  case h_32 => exact reads.map (reads.codeOf node)
  all_goals first
    | exact wrapped
    | exact reads.pure _

theorem reads_objectProperty (part : Node) : holds _ (objectProperty read part) := by
  unfold objectProperty
  split
  · split
    · exact reads.map (ofNodes _ _)
    · exact reads.pure _
  · exact reads.pure _
  · exact reads.map (reads_functionOf reads ofNodes part)
  · exact reads.pure _

theorem reads_ofObject (node : Node) : holds _ (ofObject read node) :=
  reads.bind (reads.mapM (reads_objectProperty reads ofNodes) _) fun _ =>
    reads_newObject reads _ _ _

theorem reads_ofArray (node : Node) : holds _ (ofArray read node) := by
  refine reads.bind (reads.mapM (ofNodes _) _) fun types => ?_
  split
  · exact reads.pure _
  · exact reads.pure _

theorem reads_ofAssertion (node : Node) : holds _ (ofAssertion read node) := by
  unfold ofAssertion
  split
  · exact reads.pure _
  · split
    · exact ofNodes _ _
    · exact reads_orElse reads ofNodes _ _ _

theorem reads_ofNew (node : Node) : holds _ (ofNew read scope node) := by
  unfold ofNew
  split
  · split
    · dsimp only
      split
      · exact reads.bind (reads.pure _) fun _ => reads_newReference reads _ _ _
      · refine reads.bind (reads_genericCode reads ofNodes _ _) fun code => ?_
        exact reads_newReference reads _ code _
    · exact reads.pure _
  · exact reads.pure _

/-- What holds of the steps of reading holds of reading a value. -/
theorem reads_ofValue (constant : Bool) (node : Node) :
    holds _ (ofValue read scope constant node) := by
  have inside := reads_orElse reads ofNodes (.value constant)
      (.primitive "unknown") node.firstNamed?
  unfold ofValue
  split
  case h_1 | h_3 | h_4 | h_5 =>
    split
    · exact reads.pure _
    · exact reads.pure _
  all_goals first
    | exact reads.pure _
    | exact inside
    | exact reads_functionOf reads ofNodes node
    | exact reads_ofObject reads ofNodes node
    | exact reads_ofArray reads ofNodes node
    | exact reads_ofNew reads ofNodes node
    | exact reads_ofAssertion reads ofNodes node

end

theorem reads_readWith (fuel : Nat) (reading : Reading) (node : Node) :
    holds _ (readWith scope fuel reading node) := by
  induction fuel generalizing reading node with
  | zero => exact reads.pure _
  | succ fuel ih =>
    cases reading with
    | type => exact reads_ofAnnotated reads ih node
    | value constant => exact reads_ofValue reads ih constant node

theorem reads_typeOf (node : Node) : holds _ (typeOf scope node) :=
  reads_readWith reads _ _ node

theorem reads_valueType (constant : Bool) (node : Node) :
    holds _ (valueType scope constant node) :=
  reads_readWith reads _ _ node

theorem reads_signature (node : Node) : holds _ (signature scope node) :=
  reads_signatureOf reads (reads_readWith reads _) node

/-! ## Members -/

theorem reads_signatureProperty (member : Node) :
    holds _ (signatureProperty scope member) := by
  unfold signatureProperty
  split
  · split
    · exact reads.map (reads_typeOf reads _)
    · exact reads.map (reads.pure _)
  · exact reads.map (reads_signature reads member)
  · split
    · exact reads.map (reads_typeOf reads _)
    · exact reads.pure _
  · exact reads.pure _

theorem reads_bodyMembers (members : List Node) :
    holds _ (bodyMembers scope members) := by
  induction members with
  | nil => exact reads.pure _
  | cons member rest ih =>
    unfold bodyMembers
    split
    · exact reads.bind (reads_signature reads member) fun _ =>
        reads.map ih
    · exact reads.bind (reads_signatureProperty reads member) fun _ =>
        reads.map ih

/-- What holds of the steps of reading holds of reading an interface. -/
theorem reads_interfaceParts (declarations : List Declaration) :
    holds _ (interfaceParts scope declarations) := by
  induction declarations with
  | nil => exact reads.pure _
  | cons declaration rest ih =>
    have later : ∀ own : Members TypeTerm, holds _ (do
        let bases ← ((declaration.node.namedChildren.filter fun child =>
          child.kind == "extends_type_clause").flatMap Node.namedChildren).mapM (typeOf scope)
        let more ← interfaceParts scope rest
        return ((⟨own.properties ++ more.1.properties, own.signatures ++ more.1.signatures⟩ :
          Members TypeTerm), bases ++ more.2)) :=
      fun own => reads.bind (reads.mapM (reads_typeOf reads) _) fun _ =>
        reads.map ih
    unfold interfaceParts
    split
    · exact reads.bind (reads_bodyMembers reads _) later
    · exact reads.bind (reads.pure _) later

theorem reads_memberType (member : Node) :
    holds _ (memberType scope member) := by
  unfold memberType
  split
  · split
    · exact reads.map (reads_typeOf reads _)
    · exact reads.map (reads_valueType reads _ _)
    · exact reads.pure _
  all_goals first
    | exact reads.pure _
    | split
      · exact reads.pure _
      · exact reads.map (reads_signature reads member)

/-- What holds of the steps of reading holds of reading a class. -/
theorem reads_classProperties (found : List (Property TypeTerm)) (members : List Node) :
    holds _ (classProperties scope found members) := by
  induction members generalizing found with
  | nil => exact reads.pure _
  | cons member rest ih =>
    unfold classProperties
    split
    · exact ih found
    · split
      · exact ih found
      · refine reads.bind (reads_memberType reads member) fun type => ?_
        split
        · exact ih found
        · exact ih _

theorem reads_classBases (node : Node) :
    holds _ (classBases scope node) := by
  refine reads.map (reads.mapM (fun clause => ?_) _)
  split
  · split
    · exact reads.map (reads_newReference reads _ _ _)
    · exact reads.pure _
  · exact reads.pure _

end Types
end ModuleAtlas
