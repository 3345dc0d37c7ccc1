import Mathlib.Logic.Function.Basic
import ModuleAtlas.Proofs.Source.Declared
import ModuleAtlas.Proofs.Source.Glossed

/-!
# Indexes of revised files

The index of a revised file is that of the file, each declaration as it stands in the copy.  Names
that are spelled in another way must not be among those that the file declares or imports, as they
would be found in one of both only.
-/

namespace ModuleAtlas

open Node

/-! ## Modules -/

namespace Interleaved

/-- A filter that passes over comments finds related values in both editions. -/
theorem filterMap_related {α β : Type} {relation : Node → Node → Prop} {related : α → β → Prop}
    {nodes copies : List Node} {image : Node → Option α} {otherImage : Node → Option β}
    (interleaved : Interleaved relation nodes copies)
    (implied : ∀ node copy, relation node copy → Option.Rel related (image node) (otherImage copy))
    (passesOver : ∀ start line text, otherImage (comment start line text) = none) :
    Listwise related (nodes.filterMap image) (copies.filterMap otherImage) := by
  induction interleaved with
  | nil => exact .nil
  | cons head _ ih =>
    rcases optionRel_cases (implied _ _ head) with
      ⟨none, noCopy⟩ | ⟨value, other, found, copyFound, both⟩
    · rw [List.filterMap_cons_none none, List.filterMap_cons_none noCopy]
      exact ih
    · rw [List.filterMap_cons_some found, List.filterMap_cons_some copyFound]
      exact .cons both ih
  | insert start line text _ ih =>
    rw [List.filterMap_cons_none (passesOver start line text)]
    exact ih

theorem flatMap_related {α β : Type} {relation : Node → Node → Prop} {related : α → β → Prop}
    {nodes copies : List Node} {image : Node → List α} {otherImage : Node → List β}
    (interleaved : Interleaved relation nodes copies)
    (implied : ∀ node copy, relation node copy → Listwise related (image node) (otherImage copy))
    (passesOver : ∀ start line text, otherImage (comment start line text) = []) :
    Listwise related (nodes.flatMap image) (copies.flatMap otherImage) := by
  induction interleaved with
  | nil => exact .nil
  | cons head _ ih =>
    rw [List.flatMap_cons, List.flatMap_cons]
    exact (implied _ _ head).append ih
  | insert start line text _ ih =>
    rw [List.flatMap_cons, passesOver, List.nil_append]
    exact ih

end Interleaved

theorem Listwise.flatMap_eq
    {α β γ : Type} {relation : α → β → Prop} {values : List α} {others : List β}
    {image : α → List γ} {otherImage : β → List γ} (related : Listwise relation values others)
    (equal : ∀ value other, relation value other → image value = otherImage other) :
    values.flatMap image = others.flatMap otherImage := by
  induction related with
  | nil => rfl
  | cons head _ ih =>
    rw [List.flatMap_cons, List.flatMap_cons, equal _ _ head, ih]

theorem Listwise.flatMap {α β γ δ : Type} {relation : α → β → Prop} {further : γ → δ → Prop}
    {values : List α} {others : List β} {image : α → List γ} {otherImage : β → List δ}
    (related : Listwise relation values others)
    (implied : ∀ value other, relation value other →
      Listwise further (image value) (otherImage other)) :
    Listwise further (values.flatMap image) (others.flatMap otherImage) := by
  induction related with
  | nil => exact .nil
  | cons head _ ih =>
    rw [List.flatMap_cons, List.flatMap_cons]
    exact (implied _ _ head).append ih

/-- A declaration as it stands in a file and in a revised copy of the file. -/
structure Declaration.Revised (change : Change) (declaration other : Declaration) : Prop where
  name : declaration.name = other.name
  fixed : change.spelling.Fixed declaration.name
  kind : declaration.kind = other.kind
  node : Copied change declaration.node other.node
  value : valueKinds.contains declaration.node.kind = true →
    NameText change.spelling declaration.node other.node
  group : Option.Rel (Copied change) declaration.group other.group

theorem Declaration.Revised.refl {places : Nat → Nat → Prop}
    (reflexive : ∀ start, places start start) (declaration : Declaration) :
    Declaration.Revised ⟨.same, places⟩ declaration declaration :=
  ⟨rfl, rfl, rfl, .refl reflexive _, fun _ => ⟨rfl, rfl, fun _ => rfl⟩,
    optionRel_refl (.refl reflexive) _⟩

theorem Declaration.Revised.mono {change : Change} {places : Nat → Nat → Prop}
    {declaration other : Declaration} (revised : Declaration.Revised change declaration other)
    (implied : ∀ start other, change.places start other → places start other) :
    Declaration.Revised ⟨change.spelling, places⟩ declaration other :=
  ⟨revised.name, revised.fixed, revised.kind, revised.node.mono implied, revised.value,
    optionRel_mono revised.group fun _ _ inner => inner.mono implied⟩

namespace Node

variable {change : Change} {above : String} {node copy : Node}

/-- A name that a child says, or the default, is spelled in one way. -/
theorem Copied.fixed_child?_name (copied : Copied change node copy)
    (other : node.kind ≠ "type_parameter") :
    change.spelling.Fixed (((node.child? "name").map Node.text).getD "default") := by
  rcases optionRel_cases (copied.child?_name "name" (by decide) fun _ => other) with
    ⟨none, _⟩ | ⟨name, _, found, _, _, named⟩
  · rw [none]
    exact change.spelling.own (by decide)
  · rw [found]
    exact named.fixed

/-- No value is a declaration. -/
theorem lookup_kinds_of_valueKinds {kind : String} (isValue : valueKinds.contains kind = true) :
    Declaration.kinds.lookup kind = none := by
  have all : ∀ value ∈ valueKinds, Declaration.kinds.lookup value = none := by decide
  exact all kind (List.contains_iff_mem.mp isValue)

theorem Revised.plainVariables (revised : Revised change above node copy)
    (kind : String) (exported : Bool) (statement other : Option Node) :
    Listwise (Declaration.Revised change) (Declaration.plainVariables kind exported statement node)
      (Declaration.plainVariables kind exported other copy) := by
  have copied := revised.copied
  refine copied.namedChildren.filterMap_related (fun declarator declaratorCopy part => ?_)
    fun _ _ _ => rfl
  have sameKind := part.kind_eq
  rw [sameKind]
  split
  · exact .none
  · rename_i isDeclarator
    have ofKind : declaratorCopy.kind = "variable_declarator" := by simpa using isDeclarator
    have declaratorCopied := part.copied
    rcases optionRel_cases (declaratorCopied.child?_name "name" (by decide) (fun _ => by
      rw [sameKind, ofKind]
      decide)) with
      ⟨none, noCopy⟩ | ⟨name, nameCopy, found, copyFound, nameCopied, named⟩
    · rw [none, noCopy]
      exact .none
    · rw [found, copyFound]
      dsimp only
      rw [nameCopied.kind_eq]
      split
      · refine .some ⟨named.same, named.fixed, rfl, part.copied, fun isValue => ?_,
          .some ⟨_, revised⟩⟩
        rw [sameKind, ofKind] at isValue
        cases isValue
      · exact .none

mutual

/-- A statement declares the same in both editions. -/
theorem Revised.ofStatement {change : Change} (exported : Bool) (statement other : Option Node) :
    ∀ {above : String} {node copy : Node}, Revised change above node copy →
      Listwise (Declaration.Revised change) (Declaration.ofStatement exported statement node)
        (Declaration.ofStatement exported other copy)
  | _, .mk kind named role start line text children, _, revised@(.mk _ _ _ _ below) => by
    rw [Declaration.ofStatement, Declaration.ofStatement]
    dsimp only
    split
    · exact below.ofStatements exported statement other
    · unfold Declaration.kindOf?
      simp only [Node.kind]
      split
      · exact .nil
      · rename_i declares
        split
        · exact revised.plainVariables _ exported statement other
        · have copied := revised.copied
          have notParameter : kind ≠ "type_parameter" := by
            rintro rfl
            cases declares
          refine .cons ⟨?_, ?_, rfl, ⟨_, revised⟩, fun isValue => ?_, .none⟩ .nil
          · rw [copied.child?_text "name" (by decide) fun _ => notParameter]
          · exact copied.fixed_child?_name notParameter
          · cases (lookup_kinds_of_valueKinds isValue).symm.trans declares

theorem RevisedAll.ofStatements
    {change : Change} (exported : Bool) (statement other : Option Node) :
    ∀ {above : String} {nodes copies : List Node}, RevisedAll change above nodes copies →
      Listwise (Declaration.Revised change) (Declaration.ofStatements exported statement nodes)
        (Declaration.ofStatements exported other copies)
  | _, _, _, .nil => by
    rw [Declaration.ofStatements, Declaration.ofStatements]
    exact .nil
  | _, _, _, .cons head tail => by
    rw [Declaration.ofStatements, Declaration.ofStatements, head.named_eq]
    refine Listwise.append ?_ (tail.ofStatements exported statement other)
    split
    · exact head.ofStatement exported statement other
    · exact .nil
  | _, _, _, .insert start line text tail => by
    rw [Declaration.ofStatements]
    have nothing : Declaration.ofStatement exported other (comment start line text) = [] := by
      rw [Node.comment, Declaration.ofStatement]
      rfl
    rw [nothing, ite_self, List.nil_append]
    exact tail.ofStatements exported statement other

end

theorem notParameter_of_kind {kind : String} (ofKind : node.kind = kind)
    (other : kind ≠ "type_parameter") :
    node.kind ≠ "type_parameter" :=
  ofKind ▸ other

namespace Copied

variable (copied : Copied change node copy)

include copied

theorem stringRole?_eq (role : String) (isValue : valueRoles.contains role = true) :
    node.stringRole? role = copy.stringRole? role := by
  unfold stringRole?
  rcases optionRel_cases (copied.child?_read role isValue) with
    ⟨none, noCopy⟩ | ⟨child, other, found, copyFound, childCopied, name⟩
  · rw [none, noCopy]
  · rw [found, copyFound]
    change child.stringContent? = other.stringContent?
    unfold stringContent?
    rw [childCopied.kind_eq]
    by_cases literal : other.kind = "string"
    · have sameName := name (by
        rw [childCopied.kind_eq, literal]
        decide)
      rw [sameName.same]
    · rw [if_pos (bne_iff_ne.mpr literal), if_pos (bne_iff_ne.mpr literal)]

theorem first?_text (isFirst : margin node.kind = .afterFirst)
    (reads : nameContexts.contains node.kind = true) :
    node.firstNamed?.map Node.text = copy.firstNamed?.map Node.text :=
  optionMap_eq (copied.first? isFirst) fun _ _ part => (copied.name_of_part reads part).same

theorem bindingsOfPart_eq (specifier : String)
    (sameName : node.kind = "identifier" → node.text = copy.text) :
    SourceModule.bindingsOfPart specifier node = SourceModule.bindingsOfPart specifier copy := by
  unfold SourceModule.bindingsOfPart
  have sameKind := copied.kind_eq
  rw [sameKind]
  split
  · rename_i kind
    rw [sameName (sameKind.trans kind)]
  · rename_i kind
    have names := copied.first?_text (by
      rw [sameKind, kind]
      decide) (by
      rw [sameKind, kind]
      decide)
    have bindings := congrArg (Option.map fun name => (⟨name, specifier, "*"⟩ : Binding)) names
    rw [Option.map_map, Option.map_map] at bindings
    exact congrArg Option.toList bindings
  · refine copied.namedChildren.filterMap_eq (fun item other part => ?_) fun _ _ _ => rfl
    rw [part.kind_eq]
    split
    · rename_i isSpecifier
      have itemCopied := part.copied
      have notParameter := notParameter_of_kind (part.kind_eq.trans (eq_of_beq isSpecifier))
        (by decide)
      rw [itemCopied.textOf_eq "name" (by decide) fun _ => notParameter,
        itemCopied.child?_text "alias" (by decide) fun _ => notParameter]
    · rfl
  · rfl

theorem clauseNames_eq : SourceModule.clauseNames node = SourceModule.clauseNames copy := by
  refine copied.namedChildren.filterMap_eq (fun item other part => ?_) fun _ _ _ => rfl
  rw [part.kind_eq]
  split
  · rename_i isSpecifier
    have itemCopied := part.copied
    have notParameter := notParameter_of_kind (part.kind_eq.trans (eq_of_beq isSpecifier))
      (by decide)
    rw [itemCopied.textOf_eq "name" (by decide) fun _ => notParameter,
      itemCopied.child?_text "alias" (by decide) fun _ => notParameter]
  · rfl

/-- An import binds the same names in both editions. -/
theorem bindingsOf_eq : SourceModule.bindingsOf node = SourceModule.bindingsOf copy := by
  unfold SourceModule.bindingsOf
  dsimp only
  rw [copied.stringRole?_eq "source" (by decide)]
  refine copied.namedChildren.flatMap_eq (fun child other part => ?_) fun _ _ _ => rfl
  have childCopied := part.copied
  have sameKind := childCopied.kind_eq
  rw [sameKind]
  split
  · rename_i isClause
    have ofKind : child.kind = "import_require_clause" := sameKind.trans (eq_of_beq isClause)
    have names := childCopied.first?_text (by
      rw [ofKind]
      decide) (by
      rw [ofKind]
      decide)
    rw [childCopied.stringRole?_eq "source" (by decide)]
    generalize child.firstNamed? = name at names ⊢
    generalize other.firstNamed? = otherName at names ⊢
    cases other.stringRole? "source" with
    | none => cases name <;> cases otherName <;> rfl
    | some source =>
      cases name <;> cases otherName
      · rfl
      · cases names
      · cases names
      · rename_i first second
        have sameText : first.text = second.text := Option.some.inj names
        dsimp only
        rw [sameText]
  · split
    · rename_i isClause
      have ofKind : child.kind = "import_clause" := sameKind.trans (eq_of_beq isClause)
      split
      · refine childCopied.namedChildren.flatMap_eq (fun _ _ inner => ?_) fun _ _ _ => rfl
        have innerCopied := inner.copied
        refine innerCopied.bindingsOfPart_eq _ fun isName => ?_
        refine (inner.name_of_value ?_ (.inr (isValuePlace_of_context ?_ _ _))).same
        · rw [isName]
          decide
        · rw [ofKind]
          decide
      · rfl
    · rfl

/-- The children of a kind stand in the copy, and no other ones. -/
theorem ofKind {kind : String} (different : commentKind ≠ kind) :
    Listwise (Revised change (context node.kind node.role))
      (node.children.filter fun child => child.kind == kind)
      (copy.children.filter fun child => child.kind == kind) :=
  copied.children.filter (fun _ _ part => by rw [part.kind_eq])
    fun _ _ _ => beq_false_of_ne different

theorem named_ofKind {kind : String} (different : commentKind ≠ kind) :
    Listwise (Revised change (context node.kind node.role))
      (node.namedChildren.filter fun child => child.kind == kind)
      (copy.namedChildren.filter fun child => child.kind == kind) :=
  copied.namedChildren.filter (fun _ _ part => by rw [part.kind_eq])
    fun _ _ _ => beq_false_of_ne different

/-- An export from elsewhere is the same in both editions. -/
theorem reExportOf_eq (specifier : String) :
    SourceModule.reExportOf specifier node = SourceModule.reExportOf specifier copy := by
  have spaces := copied.ofKind (show commentKind ≠ "namespace_export" by decide)
  have names : ((node.children.filter fun child => child.kind == "namespace_export").getLast?.bind
        firstNamed?).map Node.text =
      ((copy.children.filter fun child => child.kind == "namespace_export").getLast?.bind
        firstNamed?).map Node.text := by
    rcases optionRel_cases spaces.with_mem.getLast? with
      ⟨none, noCopy⟩ | ⟨space, other, found, copyFound, part, member⟩
    · rw [none, noCopy]
    · rw [found, copyFound]
      have spaceCopied := part.copied
      have isSpace := spaceCopied.kind_eq.trans (eq_of_beq (List.mem_filter.mp member).2)
      exact spaceCopied.first?_text (by
        rw [isSpace]
        decide) (by
        rw [isSpace]
        decide)
  have clauses : (node.children.filter fun child => child.kind == "export_clause").flatMap
        SourceModule.clauseNames =
      (copy.children.filter fun child => child.kind == "export_clause").flatMap
        SourceModule.clauseNames :=
    (copied.ofKind (show commentKind ≠ "export_clause" by decide)).flatMap_eq fun _ _ part =>
      part.copied.clauseNames_eq
  unfold SourceModule.reExportOf
  dsimp only
  rw [names, clauses, copied.hasChild_eq (by decide)]

end Copied

end Node

/-- The names that a file declares or imports. -/
def Node.knownNames (root : Node) : List String :=
  (SourceModule.Contribution.ofStatements root.namedChildren).declarations.map Declaration.name ++
    (SourceModule.Contribution.ofStatements root.namedChildren).bindings.map Binding.name

/-- The names that a file declares or imports are spelled in one way, and are no other spellings. -/
def Spelling.Spares (spelling : Spelling) (root : Node) : Prop :=
  ∀ name other, spelling.nameable name other →
    name = other ∨ name ∉ root.knownNames ∧ other ∉ root.knownNames

theorem Spelling.spares_same (root : Node) : Spelling.same.Spares root := fun _ _ => .inl

namespace SourceModule

/-- What statements add to an index, and what their copies add to that of a revised file. -/
structure Contribution.Revised (change : Change) (added other : Contribution) : Prop where
  declarations : Listwise (Declaration.Revised change) added.declarations other.declarations
  exports : Listwise (Named (Declaration.Revised change)) added.exports other.exports
  reExports : added.reExports = other.reExports
  bindings : added.bindings = other.bindings
  pending : added.pending = other.pending

variable {change : Change} {statement copy : Node}

theorem Contribution.revised_ofExported (copied : Copied change statement copy) :
    Contribution.Revised change (.ofExported statement) (.ofExported copy) := by
  have nothing : Contribution.Revised change .none .none := ⟨.nil, .nil, rfl, rfl, rfl⟩
  have clauses : (statement.namedChildren.filter fun child =>
        child.kind == "export_clause").flatMap clauseNames =
      (copy.namedChildren.filter fun child => child.kind == "export_clause").flatMap
        clauseNames :=
    (copied.named_ofKind (show commentKind ≠ "export_clause" by decide)).flatMap_eq fun _ _ part =>
      part.copied.clauseNames_eq
  have values : Option.Rel (CopiedValue change)
      (if statement.hasChild "default" then statement.child? "value" else .none)
      (if copy.hasChild "default" then copy.child? "value" else .none) := by
    rw [copied.hasChild_eq (by decide)]
    split
    · exact copied.child?_read "value" (by decide)
    · exact .none
  unfold Contribution.ofExported
  rcases optionRel_cases values with
    ⟨none, noCopy⟩ | ⟨value, other, found, copyFound, valueCopied, named⟩
  · rw [none, noCopy]
    exact ⟨.nil, .nil, rfl, rfl, clauses⟩
  · rw [found, copyFound]
    have sameKind := valueCopied.kind_eq
    dsimp only
    rw [sameKind]
    split
    · rename_i isName
      refine ⟨.nil, .nil, rfl, rfl, ?_⟩
      have name := named (by
        rw [sameKind, eq_of_beq isName]
        decide)
      dsimp only
      rw [name.same]
    · have sameDeclared : Declaration.kindOf? value = Declaration.kindOf? other := by
        unfold Declaration.kindOf?
        rw [sameKind]
      have fixed : change.spelling.Fixed "default" := change.spelling.own (by decide)
      refine ⟨.nil, .cons ⟨⟨rfl, fixed, ?_, valueCopied, named, .none⟩⟩ .nil, rfl, rfl, rfl⟩
      dsimp only
      rw [sameDeclared]

/-- What an export statement contributes is the same in both editions. -/
theorem Contribution.revised_ofExport (copied : Copied change statement copy) :
    Contribution.Revised change (.ofExport statement) (.ofExport copy) := by
  unfold Contribution.ofExport
  rw [copied.stringRole?_eq "source" (by decide)]
  cases copy.stringRole? "source" with
  | some specifier =>
    refine ⟨.nil, .nil, ?_, rfl, rfl⟩
    dsimp only
    rw [copied.reExportOf_eq]
  | none =>
    rcases optionRel_cases (copied.child? "declaration") with
      ⟨none, noCopy⟩ | ⟨declaration, other, found, copyFound, declarationCopied⟩
    · rw [none, noCopy]
      exact revised_ofExported copied
    · rw [found, copyFound]
      obtain ⟨_, revised⟩ := declarationCopied
      have declared := revised.ofStatement true (some statement) (some copy)
      refine ⟨declared, ?_, rfl, rfl, rfl⟩
      refine declared.map fun one two both => ?_
      rw [copied.hasChild_eq (by decide), both.name]
      exact ⟨both⟩

theorem Contribution.revised_ofStatement (copied : Copied change statement copy) :
    Contribution.Revised change (.ofStatement statement) (.ofStatement copy) := by
  unfold Contribution.ofStatement
  rw [copied.kind_eq, copied.bindingsOf_eq]
  split
  · exact ⟨.nil, .nil, rfl, rfl, rfl⟩
  · split
    · exact revised_ofExport copied
    · obtain ⟨_, revised⟩ := copied
      exact ⟨revised.ofStatement false .none .none, .nil, rfl, rfl, rfl⟩

theorem Contribution.ofStatement_comment (start line : Nat) (text : String) :
    Contribution.ofStatement (comment start line text) = .none := by
  unfold Contribution.ofStatement
  rw [Node.comment, Declaration.ofStatement]
  rfl

/-- Comments between statements contribute nothing. -/
theorem Contribution.revised_ofStatements
    {above : String} {statements copies : List Node}
    (interleaved : Interleaved (Node.Revised change above) statements copies) :
    Contribution.Revised change (.ofStatements statements) (.ofStatements copies) := by
  have each : ∀ statement copy, Node.Revised change above statement copy →
      Contribution.Revised change (.ofStatement statement) (.ofStatement copy) :=
    fun _ _ part => revised_ofStatement part.copied
  refine ⟨interleaved.flatMap_related (fun _ _ part => (each _ _ part).declarations) ?_,
    interleaved.flatMap_related (fun _ _ part => (each _ _ part).exports) ?_,
    interleaved.flatMap_eq (fun _ _ part => (each _ _ part).reExports) ?_,
    interleaved.flatMap_eq (fun _ _ part => (each _ _ part).bindings) ?_,
    interleaved.flatMap_eq (fun _ _ part => (each _ _ part).pending) ?_⟩
  all_goals
    intro start line text
    rw [ofStatement_comment]
    rfl

/-- A module declares a name, or an import binds it. -/
def Indexes (source : SourceModule) (name : String) : Prop :=
  source.lookup name ≠ [] ∨ (source.binding? name).isSome = true

/-- Names that are spelled in two ways are not known to a module. -/
def Hides (spelling : Spelling) (source : SourceModule) : Prop :=
  ∀ name other, spelling.nameable name other →
    name = other ∨ ¬source.Indexes name ∧ ¬source.Indexes other

theorem hides_same (source : SourceModule) : source.Hides .same := fun _ _ => .inl

/-- A module indexes the names that its file declares or imports. -/
theorem indexes_ofTree {path : Path} {language : Language} {root : Node} {name : String} :
    (ofTree path language root).Indexes name ↔ name ∈ root.knownNames := by
  unfold Indexes Node.knownNames
  rw [lookup_ofTree, binding?_ofTree, List.mem_append, List.mem_map, List.mem_map,
    Ne, List.filter_eq_nil_iff, List.find?_isSome]
  simp [and_comm]

theorem hides_ofTree {spelling : Spelling} {root : Node} (spares : spelling.Spares root)
    (path : Path) (language : Language) :
    (ofTree path language root).Hides spelling := by
  intro name other nameable
  rw [indexes_ofTree, indexes_ofTree]
  exact spares name other nameable

/-- A module and that of a revised copy of its file. -/
structure Revised (change : Change) (source copy : SourceModule) : Prop where
  path : source.path = copy.path
  lookup : ∀ name, Listwise (Declaration.Revised change) (source.lookup name) (copy.lookup name)
  binding : ∀ name, source.binding? name = copy.binding? name
  exports : Listwise (Named (Declaration.Revised change)) source.exports copy.exports
  reExports : source.reExports = copy.reExports
  hides : source.Hides change.spelling

theorem Revised.refl {places : Nat → Nat → Prop} (reflexive : ∀ start, places start start)
    (source : SourceModule) :
    Revised ⟨.same, places⟩ source source :=
  ⟨rfl, fun _ => .refl fun _ _ => .refl reflexive _, fun _ => rfl,
    .refl fun _ _ => ⟨.refl reflexive _⟩, rfl, source.hides_same⟩

/-- A revised copy of a file knows the same names. -/
theorem Revised.indexes_iff {source copy : SourceModule} (revised : Revised change source copy)
    (name : String) :
    source.Indexes name ↔ copy.Indexes name := by
  unfold Indexes
  rw [revised.binding, ← List.isEmpty_eq_false_iff, ← List.isEmpty_eq_false_iff,
    (revised.lookup name).isEmpty_eq]

/-- The index of a revised file is that of the file. -/
theorem revised_ofTree {root rootCopy : Node} (path : Path) (language : Language)
    (copied : Copied change root rootCopy)
    (hides : (ofTree path language root).Hides change.spelling) :
    Revised change (ofTree path language root) (ofTree path language rootCopy) := by
  have added := Contribution.revised_ofStatements copied.namedChildren
  have lookup : ∀ name, Listwise (Declaration.Revised change)
      ((ofTree path language root).lookup name) ((ofTree path language rootCopy).lookup name) := by
    intro name
    rw [lookup_ofTree, lookup_ofTree]
    exact added.declarations.filter fun _ _ both => by rw [both.name]
  have binding : ∀ name, (ofTree path language root).binding? name =
      (ofTree path language rootCopy).binding? name := by
    intro name
    rw [binding?_ofTree, binding?_ofTree, added.bindings]
  refine ⟨by rw [ofTree_path, ofTree_path], lookup, binding, ?_, ?_, hides⟩
  · rw [exports_ofTree, exports_ofTree, added.pending]
    have pending : Listwise Eq (Contribution.ofStatements rootCopy.namedChildren).pending
        (Contribution.ofStatements rootCopy.namedChildren).pending := .refl fun _ _ => rfl
    refine added.exports.append (pending.flatMap ?_)
    rintro names _ rfl
    exact (lookup names.2).map fun _ _ both => ⟨both⟩
  · rw [reExports_ofTree, reExports_ofTree, added.pending, added.reExports]
    congr 2
    funext names
    unfold settled
    dsimp only
    have sameNone : ((ofTree path language root).lookup names.2 = []) =
        ((ofTree path language rootCopy).lookup names.2 = []) := by
      rw [← List.isEmpty_iff, ← List.isEmpty_iff, (lookup names.2).isEmpty_eq]
    rw [binding]
    simp only [sameNone]

end SourceModule
end ModuleAtlas
