import ModuleAtlas.Proofs.Source.Index

/-!
# The names that statements export

A declaration of variables binds all identifiers of its patterns.  An index takes up those that
stand for themselves and passes over patterns.  What else a statement declares or exports is named
the same way in both readings.
-/

namespace ModuleAtlas

namespace Node

/-! ## Patterns -/

mutual

/-- The identifiers that a pattern binds. -/
def patternNames : Node → List String
  | .mk kind _ _ _ _ text children =>
    if kind == "identifier" || kind == "shorthand_property_identifier_pattern" then [text]
    else if kind == "pair_pattern" then patternNamesIn (· == some "value") children
    else if kind == "assignment_pattern" || kind == "object_assignment_pattern" then
      patternNamesIn (· == some "left") children
    else if kind == "object_pattern" || kind == "array_pattern" || kind == "rest_pattern" then
      patternNamesIn (fun _ => true) children
    else []

/-- The identifiers that the patterns of some roles among some nodes bind. -/
def patternNamesIn (counts : Option String → Bool) : List Node → List String
  | [] => []
  | node :: rest =>
    (if counts node.role then patternNames node else []) ++ patternNamesIn counts rest

end

/-- The identifier that a pattern is, unless it has parts. -/
def plainNames (pattern : Node) : List String :=
  if pattern.kind == "identifier" then [pattern.text] else []

theorem plainNames_subset (pattern : Node) : pattern.plainNames ⊆ pattern.patternNames := by
  obtain ⟨kind, named, role, start, line, text, children⟩ := pattern
  intro name member
  unfold plainNames at member
  split at member
  · rename_i isIdentifier
    unfold patternNames
    rw [if_pos (by simp [show kind = "identifier" from eq_of_beq isIdentifier])]
    exact member
  · cases member

/-! ## Declarations -/

section Names

variable (ofPattern : Node → List String)

/-- The names that the declarators of a statement bind. -/
def variableNames (group : Node) : List String :=
  group.namedChildren.flatMap fun declarator =>
    if declarator.kind == "variable_declarator" then
      (declarator.child? "name").toList.flatMap ofPattern
    else []

mutual

/-- The names that a declaration declares, where those of patterns are read in a given way.  A
declaration without a name is called `default`. -/
def declaredNames : Node → List String
  | .mk kind named role start line text children =>
    let node := Node.mk kind named role start line text children
    if kind == "ambient_declaration" then declaredNamesIn children
    else if (Declaration.kindOf? node).isNone then []
    else if kind == "lexical_declaration" || kind == "variable_declaration" then
      node.variableNames ofPattern
    else [((node.child? "name").map Node.text).getD "default"]

/-- The names that the declarations among some nodes declare. -/
def declaredNamesIn : List Node → List String
  | [] => []
  | node :: rest => (if node.named then declaredNames node else []) ++ declaredNamesIn rest

end

/-- The names that a top-level statement declares. -/
def introducedNames (statement : Node) : List String :=
  if statement.kind == "import_statement" then []
  else if statement.kind == "export_statement" then
    match statement.stringRole? "source", statement.child? "declaration" with
    | none, some declaration => declaration.declaredNames ofPattern
    | _, _ => []
  else statement.declaredNames ofPattern

/-- The names that a top-level statement exports together with what it declares or evaluates. -/
def exportedNames (statement : Node) : List String :=
  if statement.kind == "export_statement" then
    match statement.stringRole? "source", statement.child? "declaration" with
    | some _, _ => []
    | none, some declaration =>
      (declaration.declaredNames ofPattern).map fun name =>
        if statement.hasChild "default" then "default" else name
    | none, none =>
      match (if statement.hasChild "default" then statement.child? "value" else none) with
      | some value => if value.kind == "identifier" then [] else ["default"]
      | none => []
  else []

end Names

section Wider

variable {ofPattern wider : Node → List String}

theorem variableNames_subset (included : ∀ pattern, ofPattern pattern ⊆ wider pattern)
    (group : Node) :
    group.variableNames ofPattern ⊆ group.variableNames wider := by
  intro name member
  obtain ⟨declarator, declaratorMember, bound⟩ := List.mem_flatMap.mp member
  refine List.mem_flatMap.mpr ⟨declarator, declaratorMember, ?_⟩
  split at bound
  · rename_i isDeclarator
    rw [if_pos isDeclarator]
    obtain ⟨pattern, patternMember, inPattern⟩ := List.mem_flatMap.mp bound
    exact List.mem_flatMap.mpr ⟨pattern, patternMember, included pattern inPattern⟩
  · cases bound

mutual

/-- A reader that takes in more patterns declares no fewer names. -/
theorem declaredNames_subset (included : ∀ pattern, ofPattern pattern ⊆ wider pattern) :
    ∀ node : Node, node.declaredNames ofPattern ⊆ node.declaredNames wider
  | .mk kind named role start line text children => by
    unfold declaredNames
    dsimp only
    split
    · exact declaredNamesIn_subset included children
    split
    · exact List.Subset.refl _
    split
    · exact variableNames_subset included _
    · exact List.Subset.refl _

theorem declaredNamesIn_subset (included : ∀ pattern, ofPattern pattern ⊆ wider pattern) :
    ∀ nodes : List Node, declaredNamesIn ofPattern nodes ⊆ declaredNamesIn wider nodes
  | [] => List.Subset.refl _
  | node :: rest => by
    intro name member
    unfold declaredNamesIn at member ⊢
    rcases List.mem_append.mp member with first | later
    · refine List.mem_append_left _ ?_
      cases isNamed : node.named with
      | true =>
        rw [isNamed, if_pos rfl] at first
        exact declaredNames_subset included node first
      | false =>
        rw [isNamed] at first
        cases first
    · exact List.mem_append_right _ (declaredNamesIn_subset included rest later)

end

theorem introducedNames_subset (included : ∀ pattern, ofPattern pattern ⊆ wider pattern)
    (statement : Node) :
    statement.introducedNames ofPattern ⊆ statement.introducedNames wider := by
  unfold introducedNames
  split
  · exact List.Subset.refl _
  split
  · split
    · exact declaredNames_subset included _
    · exact List.Subset.refl _
  · exact declaredNames_subset included _

theorem exportedNames_subset (included : ∀ pattern, ofPattern pattern ⊆ wider pattern)
    (statement : Node) :
    statement.exportedNames ofPattern ⊆ statement.exportedNames wider := by
  unfold exportedNames
  split
  · split
    · exact List.Subset.refl _
    · exact List.map_subset _ (declaredNames_subset included _)
    · exact List.Subset.refl _
  · exact List.Subset.refl _

end Wider

end Node

/-! ## What an index takes up -/

namespace Declaration

/-- Each variable with a plain name is declared under it. -/
theorem names_plainVariables (kind : String) (exported : Bool) (statement : Option Node)
    (group : Node) :
    (plainVariables kind exported statement group).map name =
      group.variableNames Node.plainNames := by
  unfold plainVariables Node.variableNames
  induction group.namedChildren with
  | nil => rfl
  | cons declarator rest ih =>
    rw [List.filterMap_cons, List.flatMap_cons, ← ih]
    unfold bne
    cases declarator.kind == "variable_declarator" with
    | false => rfl
    | true =>
      cases declarator.child? "name" with
      | none => rfl
      | some pattern =>
        cases isIdentifier : pattern.kind == "identifier" <;> simp [Node.plainNames, isIdentifier]

mutual

/-- A statement declares what its syntax names plainly, in that order. -/
theorem names_ofStatement (exported : Bool) (statement : Option Node) : ∀ node : Node,
    (ofStatement exported statement node).map name = node.declaredNames Node.plainNames
  | .mk kind named role start line text children => by
    unfold ofStatement Node.declaredNames
    dsimp only
    split
    · exact names_ofStatements exported statement children
    cases kindOf? (.mk kind named role start line text children) with
    | none => rfl
    | some declared =>
      dsimp only
      split
      · exact names_plainVariables declared exported statement _
      · rfl

theorem names_ofStatements (exported : Bool) (statement : Option Node) : ∀ nodes : List Node,
    (ofStatements exported statement nodes).map name = Node.declaredNamesIn Node.plainNames nodes
  | [] => rfl
  | node :: rest => by
    unfold ofStatements Node.declaredNamesIn
    rw [List.map_append, names_ofStatements exported statement rest]
    cases node.named with
    | true =>
      simp only [if_true]
      rw [names_ofStatement exported statement node]
    | false => rfl

end

end Declaration

namespace SourceModule.Contribution

theorem names_declarations_ofStatement (statement : Node) :
    (ofStatement statement).declarations.map Declaration.name =
      statement.introducedNames Node.plainNames := by
  unfold ofStatement Node.introducedNames
  split
  · rfl
  split
  · unfold ofExport
    cases statement.stringRole? "source" with
    | some specifier => rfl
    | none =>
      cases statement.child? "declaration" with
      | some declaration => exact Declaration.names_ofStatement _ _ _
      | none =>
        dsimp only
        rw [(ofExported_rest statement).1]
        rfl
  · exact Declaration.names_ofStatement _ _ _

/-- A statement exports what its syntax names plainly, in that order. -/
theorem names_exports_ofStatement (statement : Node) :
    (ofStatement statement).exports.map Prod.fst = statement.exportedNames Node.plainNames := by
  unfold ofStatement Node.exportedNames
  split
  · rename_i isImport
    rw [eq_of_beq isImport]
    rfl
  split
  · unfold ofExport
    cases statement.stringRole? "source" with
    | some specifier => rfl
    | none =>
      cases statement.child? "declaration" with
      | some declaration =>
        dsimp only
        rw [← Declaration.names_ofStatement true (some statement), List.map_map, List.map_map]
        rfl
      | none =>
        dsimp only
        unfold ofExported
        cases (if statement.hasChild "default" then statement.child? "value" else Option.none) with
        | none => rfl
        | some value => dsimp only; split <;> rfl
  · rfl

end SourceModule.Contribution

namespace SourceModule

/-- The names that a module declares, where those of patterns are read in a given way. -/
def Declares (ofPattern : Node → List String) (source : SourceModule) (name : String) : Prop :=
  ∃ statement ∈ source.root.namedChildren, name ∈ statement.introducedNames ofPattern

/-- An export clause of a module, or a default export of an identifier, exports a local name. -/
def ExportsLocal (source : SourceModule) (name localName : String) : Prop :=
  ∃ statement ∈ source.root.namedChildren,
    (name, localName) ∈ (Contribution.ofStatement statement).pending

/-- What an export clause hands on of a binding. -/
def handedOf (binding : Binding) (name : String) : ReExport :=
  ⟨binding.specifier, some [(name, binding.imported)], none⟩

section OfTree

variable {path : Path} {language : Language} {root : Node}

/-- A name is found in a module just when one of its statements declares it plainly. -/
theorem lookup_ofTree_ne_nil_iff {name : String} :
    (ofTree path language root).lookup name ≠ [] ↔
      (ofTree path language root).Declares Node.plainNames name := by
  unfold Declares
  rw [lookup_ofTree, ofTree_root]
  constructor
  · intro known
    obtain ⟨declaration, rest, found⟩ := List.exists_cons_of_ne_nil known
    have member : declaration ∈ _ := found ▸ List.mem_cons_self
    obtain ⟨declarationMember, same⟩ := List.mem_filter.mp member
    obtain ⟨statement, statementMember, declared⟩ := List.mem_flatMap.mp declarationMember
    refine ⟨statement, statementMember, ?_⟩
    rw [← Contribution.names_declarations_ofStatement, ← eq_of_beq same]
    exact List.mem_map_of_mem declared
  · rintro ⟨statement, statementMember, member⟩
    rw [← Contribution.names_declarations_ofStatement] at member
    obtain ⟨declaration, declarationMember, rfl⟩ := List.mem_map.mp member
    refine List.ne_nil_of_mem (List.mem_filter.mpr ⟨?_, beq_self_eq_true declaration.name⟩)
    exact List.mem_flatMap.mpr ⟨statement, statementMember, declarationMember⟩

theorem lookup_ofTree_eq_nil_iff {name : String} :
    (ofTree path language root).lookup name = [] ↔
      ¬(ofTree path language root).Declares Node.plainNames name := by
  rw [← lookup_ofTree_ne_nil_iff]
  exact Classical.not_not.symm

/-- A name is exported with a declaration or a value, or a clause exports a declared name. -/
theorem mem_exports_ofTree_iff {name : String} :
    name ∈ (ofTree path language root).exports.map Prod.fst ↔
      (∃ statement ∈ root.namedChildren, name ∈ statement.exportedNames Node.plainNames) ∨
      ∃ localName, (ofTree path language root).ExportsLocal name localName ∧
        (ofTree path language root).Declares Node.plainNames localName := by
  rw [exports_ofTree, List.map_append, List.mem_append]
  apply or_congr
  · simp only [Contribution.ofStatements, List.map_flatMap, List.mem_flatMap,
      Contribution.names_exports_ofStatement]
  · unfold ExportsLocal
    rw [ofTree_root]
    constructor
    · intro member
      obtain ⟨entry, entryMember, rfl⟩ := List.mem_map.mp member
      obtain ⟨names, pending, exported⟩ := List.mem_flatMap.mp entryMember
      obtain ⟨statement, statementMember, inStatement⟩ := List.mem_flatMap.mp pending
      obtain ⟨target, targetMember, rfl⟩ := List.mem_map.mp exported
      exact ⟨names.2, ⟨statement, statementMember, inStatement⟩,
        lookup_ofTree_ne_nil_iff.mp (List.ne_nil_of_mem targetMember)⟩
    · rintro ⟨localName, ⟨statement, statementMember, pending⟩, declared⟩
      obtain ⟨target, rest, found⟩ :=
        List.exists_cons_of_ne_nil (lookup_ofTree_ne_nil_iff.mpr declared)
      refine List.mem_map.mpr ⟨(name, target), List.mem_flatMap.mpr ⟨(name, localName),
        ?_, ?_⟩, rfl⟩
      · exact List.mem_flatMap.mpr ⟨statement, statementMember, pending⟩
      · simp [settled, found]

/-- A re-export stems from a statement with a source, or a clause exports what an import binds to a
name that is not declared. -/
theorem mem_reExports_ofTree_iff {entry : ReExport} :
    entry ∈ (ofTree path language root).reExports ↔
      (∃ statement ∈ root.namedChildren, entry ∈ (Contribution.ofStatement statement).reExports) ∨
      ∃ name localName binding, (ofTree path language root).ExportsLocal name localName ∧
        ¬(ofTree path language root).Declares Node.plainNames localName ∧
        (ofTree path language root).binding? localName = some binding ∧
        entry = handedOf binding name := by
  rw [reExports_ofTree, List.mem_append]
  apply or_congr
  · exact List.mem_flatMap
  · unfold ExportsLocal
    rw [ofTree_root]
    constructor
    · intro member
      obtain ⟨names, pending, handed⟩ := List.mem_flatMap.mp member
      obtain ⟨statement, statementMember, inStatement⟩ := List.mem_flatMap.mp pending
      unfold settled at handed
      dsimp only at handed
      split at handed
      · rename_i undeclared
        obtain ⟨binding, bound, rfl⟩ := List.mem_map.mp handed
        exact ⟨names.1, names.2, binding, ⟨statement, statementMember, inStatement⟩,
          lookup_ofTree_eq_nil_iff.mp undeclared, Option.mem_toList.mp bound, rfl⟩
      · cases handed
    · rintro ⟨name, localName, binding, ⟨statement, statementMember, pending⟩, undeclared, bound,
        rfl⟩
      refine List.mem_flatMap.mpr ⟨(name, localName), ?_, ?_⟩
      · exact List.mem_flatMap.mpr ⟨statement, statementMember, pending⟩
      · simp [settled, lookup_ofTree_eq_nil_iff.mpr undeclared, bound, handedOf]

/-- What a local name is bound to, an import statement binds. -/
theorem mem_bindings_of_binding? {name : String} {binding : Binding}
    (bound : (ofTree path language root).binding? name = some binding) :
    binding.name = name ∧
      ∃ statement ∈ root.namedChildren,
        binding ∈ (Contribution.ofStatement statement).bindings := by
  rw [binding?_ofTree] at bound
  have named := List.find?_some bound
  refine ⟨eq_of_beq named, ?_⟩
  exact List.mem_flatMap.mp (List.mem_reverse.mp (List.mem_of_find?_eq_some bound))

end OfTree

end SourceModule
end ModuleAtlas
