import ModuleAtlas.Source.Module

/-!
# What an index holds

The index of a source file is built statement by statement, and export clauses are settled when all
statements are known.  What each statement contributes does not depend on the others, and settling
neither declares nor binds a name.  So the index holds what the statements contribute, in their
order, followed by what their clauses come to.
-/

namespace ModuleAtlas
namespace SourceModule

/-! ## Contributions -/

/-- What top-level statements add to an index, and the names that are settled later: the exported
and the local ones. -/
structure Contribution where
  declarations : List Declaration
  exports : List (String × Declaration)
  reExports : List ReExport
  bindings : List Binding
  pending : List (String × String)

namespace Contribution

/-- Nothing to add. -/
def none : Contribution := ⟨[], [], [], [], []⟩

/-- What one list of statements adds and then another one. -/
def append (first second : Contribution) : Contribution :=
  ⟨first.declarations ++ second.declarations, first.exports ++ second.exports,
    first.reExports ++ second.reExports, first.bindings ++ second.bindings,
    first.pending ++ second.pending⟩

/-- What an export statement without a source and without a declaration adds. -/
def ofExported (statement : Node) : Contribution :=
  match (if statement.hasChild "default" then statement.child? "value" else Option.none) with
  | some value =>
    if value.kind == "identifier" then { none with pending := [("default", value.text)] }
    else
      { none with exports := [("default",
          ⟨"default", (Declaration.kindOf? value).getD "variable", value, true, some statement,
            .none⟩)] }
  | .none =>
    { none with pending := (statement.namedChildren.filter fun child =>
        child.kind == "export_clause").flatMap clauseNames }

/-- A statement without a source and without a declaration declares nothing, hands nothing on and
binds nothing. -/
theorem ofExported_rest (statement : Node) :
    (ofExported statement).declarations = [] ∧ (ofExported statement).reExports = [] ∧
      (ofExported statement).bindings = [] := by
  unfold ofExported
  split
  · split <;> exact ⟨rfl, rfl, rfl⟩
  · exact ⟨rfl, rfl, rfl⟩

/-- What an export statement adds. -/
def ofExport (statement : Node) : Contribution :=
  match statement.stringRole? "source", statement.child? "declaration" with
  | some specifier, _ => { none with reExports := [reExportOf specifier statement] }
  | .none, some declaration =>
    let declared := Declaration.ofStatement true (some statement) declaration
    { none with
      declarations := declared
      exports := declared.map fun declaration =>
        (if statement.hasChild "default" then "default" else declaration.name, declaration) }
  | .none, .none => ofExported statement

theorem reExports_ofExport (statement : Node) :
    (ofExport statement).reExports =
      (statement.stringRole? "source").toList.map fun specifier =>
        reExportOf specifier statement := by
  unfold ofExport
  cases statement.stringRole? "source" with
  | some specifier => rfl
  | none =>
    cases statement.child? "declaration" with
    | some declaration => rfl
    | none => exact (ofExported_rest statement).2.1

theorem bindings_ofExport (statement : Node) : (ofExport statement).bindings = [] := by
  unfold ofExport
  cases statement.stringRole? "source" with
  | some specifier => rfl
  | none =>
    cases statement.child? "declaration" with
    | some declaration => rfl
    | none => exact (ofExported_rest statement).2.2

/-- What a top-level statement adds. -/
def ofStatement (statement : Node) : Contribution :=
  if statement.kind == "import_statement" then { none with bindings := bindingsOf statement }
  else if statement.kind == "export_statement" then ofExport statement
  else { none with declarations := Declaration.ofStatement false Option.none statement }

/-- Only an export with a source exports from elsewhere. -/
theorem reExports_ofStatement (statement : Node) :
    (ofStatement statement).reExports =
      if statement.kind == "export_statement" then
        (statement.stringRole? "source").toList.map fun specifier => reExportOf specifier statement
      else [] := by
  unfold ofStatement
  split
  · rename_i isImport
    rw [eq_of_beq isImport]
    rfl
  split
  · exact reExports_ofExport statement
  · rfl

theorem bindings_ofStatement (statement : Node) :
    (ofStatement statement).bindings =
      if statement.kind == "import_statement" then bindingsOf statement else [] := by
  unfold ofStatement
  split
  · rfl
  split
  · exact bindings_ofExport statement
  · rfl

/-- What top-level statements add one after the other. -/
def ofStatements (statements : List Node) : Contribution where
  declarations := statements.flatMap fun statement => (ofStatement statement).declarations
  exports := statements.flatMap fun statement => (ofStatement statement).exports
  reExports := statements.flatMap fun statement => (ofStatement statement).reExports
  bindings := statements.flatMap fun statement => (ofStatement statement).bindings
  pending := statements.flatMap fun statement => (ofStatement statement).pending

theorem ofStatements_cons (statement : Node) (rest : List Node) :
    ofStatements (statement :: rest) = (ofStatement statement).append (ofStatements rest) :=
  rfl

end Contribution

/-- The module with a contribution taken up, as far as that is not pending. -/
def extend (index : SourceModule) (added : Contribution) : SourceModule :=
  { index with
    declarations := added.declarations.foldl
      (fun known declaration => Keyed.push declaration.name declaration known) index.declarations
    exports := index.exports ++ added.exports
    reExports := index.reExports ++ added.reExports
    bindings := added.bindings.foldl
      (fun known binding => Keyed.put binding.name binding known) index.bindings }

@[simp]
theorem extend_none (index : SourceModule) : index.extend .none = index := by
  simp [extend, Contribution.none]

theorem extend_append (index : SourceModule) (first second : Contribution) :
    index.extend (first.append second) = (index.extend first).extend second := by
  simp [extend, Contribution.append]

theorem foldl_declare (declarations : List Declaration) (index : SourceModule) :
    declarations.foldl declare index =
      index.extend { Contribution.none with declarations := declarations } := by
  induction declarations generalizing index with
  | nil => exact (extend_none index).symm
  | cons declaration rest ih =>
    rw [List.foldl_cons, ih]
    simp [extend, declare, Contribution.none]

theorem foldl_bind (bindings : List Binding) (index : SourceModule) :
    bindings.foldl bind index =
      index.extend { Contribution.none with bindings := bindings } := by
  induction bindings generalizing index with
  | nil => exact (extend_none index).symm
  | cons binding rest ih =>
    rw [List.foldl_cons, ih]
    simp [extend, bind, Contribution.none]

theorem foldl_declare_handOut (naming : Declaration → String) (declarations : List Declaration)
    (index : SourceModule) :
    declarations.foldl
        (fun (index : SourceModule) declaration =>
          (index.declare declaration).handOut (naming declaration) declaration) index =
      index.extend { Contribution.none with
        declarations := declarations
        exports := declarations.map fun declaration => (naming declaration, declaration) } := by
  induction declarations generalizing index with
  | nil => exact (extend_none index).symm
  | cons declaration rest ih =>
    rw [List.foldl_cons, ih]
    simp [extend, declare, handOut, Contribution.none]

/-- An export statement adds its contribution, and leaves its clauses to the end. -/
theorem addExport_eq (index : SourceModule) (statement : Node) :
    index.addExport statement =
      (index.extend (.ofExport statement), (Contribution.ofExport statement).pending) := by
  unfold addExport Contribution.ofExport
  dsimp only
  cases statement.stringRole? "source" with
  | some specifier => simp [extend, reExport, Contribution.none]
  | none =>
    cases statement.child? "declaration" with
    | some declaration =>
      dsimp only
      rw [foldl_declare_handOut]
      rfl
    | none =>
      unfold Contribution.ofExported
      dsimp only
      cases (if statement.hasChild "default" then statement.child? "value" else none) with
      | none => simp [extend, Contribution.none]
      | some value =>
        dsimp only
        split
        · simp [extend, Contribution.none]
        · simp [extend, handOut, Contribution.none]

theorem addStatement_eq (index : SourceModule) (statement : Node) :
    index.addStatement statement =
      (index.extend (.ofStatement statement), (Contribution.ofStatement statement).pending) := by
  unfold addStatement Contribution.ofStatement
  split
  · rw [foldl_bind]
    rfl
  split
  · exact addExport_eq index statement
  · rw [foldl_declare]
    rfl

/-! ## Settling -/

/-- What an exported name is settled to. -/
def settled (index : SourceModule) (names : String × String) : Contribution :=
  { Contribution.none with
    exports := (index.lookup names.2).map fun target => (names.1, target)
    reExports :=
      if index.lookup names.2 = [] then
        (index.binding? names.2).toList.map fun binding =>
          ⟨binding.specifier, some [(names.1, binding.imported)], none⟩
      else [] }

theorem foldl_handOut (name : String) (targets : List Declaration) (index : SourceModule) :
    targets.foldl (fun index target => index.handOut name target) index =
      { index with exports := index.exports ++ targets.map fun target => (name, target) } := by
  induction targets generalizing index with
  | nil => simp
  | cons target rest ih =>
    rw [List.foldl_cons, ih]
    simp [handOut]

/-- Settling a clause adds what the index knows of its names. -/
theorem settle_eq (index : SourceModule) (names : String × String) :
    index.settle names = index.extend (index.settled names) := by
  unfold settle settled extend
  cases known : index.lookup names.2 with
  | nil =>
    cases index.binding? names.2 with
    | none => simp [Contribution.none]
    | some binding => simp [reExport, Contribution.none]
  | cons target rest =>
    simp only
    rw [foldl_handOut]
    simp [Contribution.none]

/-- What a name is settled to depends on the declarations and the bindings alone, and settling
leaves these as they are. -/
theorem settled_extend_settled (index : SourceModule) (names others : String × String) :
    (index.extend (index.settled names)).settled others = index.settled others :=
  rfl

theorem foldl_settle (pending : List (String × String)) (index : SourceModule) :
    pending.foldl settle index =
      index.extend { Contribution.none with
        exports := pending.flatMap fun names => (index.settled names).exports
        reExports := pending.flatMap fun names => (index.settled names).reExports } := by
  induction pending generalizing index with
  | nil => exact (extend_none index).symm
  | cons names rest ih =>
    rw [List.foldl_cons, settle_eq, ih]
    simp only [settled_extend_settled, List.flatMap_cons]
    simp [extend, settled, Contribution.none]

/-! ## Whole files -/

/-- Statement after statement adds its contribution. -/
theorem foldl_addStatement (statements : List Node) (index : SourceModule)
    (pending : List (String × String)) :
    statements.foldl (fun (index, pending) statement =>
        let (index, more) := SourceModule.addStatement index statement
        (index, pending ++ more)) (index, pending) =
      (index.extend (.ofStatements statements),
        pending ++ (Contribution.ofStatements statements).pending) := by
  induction statements generalizing index pending with
  | nil => simp [Contribution.ofStatements, extend]
  | cons statement rest ih =>
    rw [List.foldl_cons]
    dsimp only
    rw [addStatement_eq, ih, Contribution.ofStatements_cons, extend_append, List.append_assoc]
    rfl

/-- The index of a source file: what its statements add, and then what their clauses come to. -/
theorem ofTree_eq (path : Path) (language : Language) (root : Node) :
    let added := Contribution.ofStatements root.namedChildren
    let unsettled := (bare path language root).extend added
    ofTree path language root =
      unsettled.extend { Contribution.none with
        exports := added.pending.flatMap fun names => (unsettled.settled names).exports
        reExports := added.pending.flatMap fun names => (unsettled.settled names).reExports } := by
  dsimp only
  unfold ofTree
  rw [foldl_addStatement, ← foldl_settle]
  rfl

theorem getD_find?_push (name : String) (declaration : Declaration)
    (known : List (String × List Declaration)) :
    (Keyed.find? name (Keyed.push declaration.name declaration known)).getD [] =
      (Keyed.find? name known).getD [] ++
        if declaration.name == name then [declaration] else [] := by
  unfold Keyed.find?
  induction known with
  | nil =>
    rw [Keyed.push, List.lookup_cons, BEq.comm]
    cases declaration.name == name <;> rfl
  | cons entry rest ih =>
    obtain ⟨key, held⟩ := entry
    rw [Keyed.push]
    split
    · rename_i same
      rw [← eq_of_beq same, List.lookup_cons, List.lookup_cons, BEq.comm]
      cases key == name <;> simp
    · rename_i different
      rw [List.lookup_cons, List.lookup_cons]
      cases asked : name == key with
      | true =>
        rw [eq_of_beq asked, BEq.comm, if_neg different, List.append_nil]
      | false => exact ih

theorem getD_find?_foldl_push (name : String) (declarations : List Declaration)
    (known : List (String × List Declaration)) :
    (Keyed.find? name (declarations.foldl
      (fun known declaration => Keyed.push declaration.name declaration known) known)).getD [] =
      (Keyed.find? name known).getD [] ++
        declarations.filter fun declaration => declaration.name == name := by
  induction declarations generalizing known with
  | nil => exact (List.append_nil _).symm
  | cons declaration rest ih =>
    rw [List.foldl_cons, ih, getD_find?_push, List.filter_cons, List.append_assoc]
    cases declaration.name == name <;> rfl

/-- The last binding of a name is the one that counts. -/
theorem find?_foldl_put (name : String) (bindings : List Binding)
    (known : List (String × Binding)) :
    Keyed.find? name (bindings.foldl
      (fun known binding => Keyed.put binding.name binding known) known) =
      (bindings.reverse.find? fun binding => binding.name == name).or
        (Keyed.find? name known) := by
  induction bindings generalizing known with
  | nil => rfl
  | cons binding rest ih =>
    rw [List.foldl_cons, ih, Keyed.find?_put, List.reverse_cons,
      List.find?_append, Option.or_assoc, BEq.comm]
    cases named : binding.name == name <;> simp [named]

section OfTree

variable (path : Path) (language : Language) (root : Node)

theorem ofTree_path : (ofTree path language root).path = path := by
  rw [ofTree_eq]
  rfl

/-- The index of a syntax tree keeps the tree. -/
theorem ofTree_root : (ofTree path language root).root = root := by
  rw [ofTree_eq]
  rfl

/-- The declarations of a name, in the order of their statements. -/
theorem lookup_ofTree (name : String) :
    (ofTree path language root).lookup name =
      (Contribution.ofStatements root.namedChildren).declarations.filter fun declaration =>
        declaration.name == name := by
  rw [ofTree_eq]
  exact getD_find?_foldl_push name _ []

/-- The binding of a name is the last one that an import makes. -/
theorem binding?_ofTree (name : String) :
    (ofTree path language root).binding? name =
      (Contribution.ofStatements root.namedChildren).bindings.reverse.find? fun binding =>
        binding.name == name := by
  rw [ofTree_eq]
  exact (find?_foldl_put name _ []).trans (Option.or_none)

theorem exports_ofTree :
    (ofTree path language root).exports =
      (Contribution.ofStatements root.namedChildren).exports ++
        (Contribution.ofStatements root.namedChildren).pending.flatMap fun names =>
          ((ofTree path language root).settled names).exports := by
  rw [ofTree_eq]
  rfl

theorem reExports_ofTree :
    (ofTree path language root).reExports =
      (Contribution.ofStatements root.namedChildren).reExports ++
        (Contribution.ofStatements root.namedChildren).pending.flatMap fun names =>
          ((ofTree path language root).settled names).reExports := by
  rw [ofTree_eq]
  rfl

end OfTree

end SourceModule

/-!
## The names that a file asks other files for

What a file hands on from other files is written in it: in the items of its export clauses, or in
the items of its import clauses when an export clause names what an import binds.
-/

/-! ## Syntax trees -/

namespace Node

mutual

theorem mem_walk_of_mem_children {child : Node} :
    ∀ {tree node : Node}, node ∈ tree.walk → child ∈ node.children → child ∈ tree.walk
  | .mk _ _ _ _ _ _ _, _, member, childMember => by
    rw [walk] at member ⊢
    rcases List.mem_cons.mp member with rfl | below
    · exact List.mem_cons_of_mem _ (mem_walkAll_of_mem childMember)
    · exact List.mem_cons_of_mem _ (mem_walkAll_of_mem_children below childMember)

theorem mem_walkAll_of_mem {child : Node} : ∀ {nodes : List Node}, child ∈ nodes →
    child ∈ walkAll nodes
  | node :: rest, member => by
    rw [walkAll]
    rcases List.mem_cons.mp member with rfl | later
    · obtain ⟨kind, named, role, start, line, text, children⟩ := child
      rw [walk]
      exact List.mem_append_left _ List.mem_cons_self
    · exact List.mem_append_right _ (mem_walkAll_of_mem later)

theorem mem_walkAll_of_mem_children {child : Node} :
    ∀ {nodes : List Node} {node : Node}, node ∈ walkAll nodes → child ∈ node.children →
      child ∈ walkAll nodes
  | tree :: rest, _, member, childMember => by
    rw [walkAll] at member ⊢
    rcases List.mem_append.mp member with first | later
    · exact List.mem_append_left _ (mem_walk_of_mem_children first childMember)
    · exact List.mem_append_right _ (mem_walkAll_of_mem_children later childMember)

end

theorem isComment_of_kind {node : Node} {kind : String} (ofKind : (node.kind == kind) = true)
    (different : (kind == "comment") = false) :
    node.isComment = false := by
  rw [isComment, eq_of_beq ofKind, different, Bool.false_and]

theorem mem_substance {root node : Node} :
    node ∈ root.substance ↔ node ∈ root.walk ∧ node.isComment = false := by
  rw [substance, List.mem_filter, Bool.not_eq_true']

theorem self_mem_walk (node : Node) : node ∈ node.walk := by
  obtain ⟨kind, named, role, start, line, text, children⟩ := node
  rw [walk]
  exact List.mem_cons_self

end Node

namespace SourceModule

/-! ## Re-exports -/

section OfTree

variable {path : Path} {language : Language} {root : Node} {entry : ReExport}

/-- A re-export of a file stems from an export statement with a source, or it hands on the name of a
binding. -/
theorem mem_reExports_ofTree (member : entry ∈ (ofTree path language root).reExports) :
    (∃ statement ∈ root.namedChildren, ∃ specifier,
      statement.stringRole? "source" = some specifier ∧ entry = reExportOf specifier statement) ∨
    ∃ statement ∈ root.namedChildren, ∃ binding ∈ bindingsOf statement, ∃ name,
      entry = ⟨binding.specifier, some [(name, binding.imported)], none⟩ := by
  rw [reExports_ofTree] at member
  rcases List.mem_append.mp member with direct | settled
  · obtain ⟨statement, statementMember, added⟩ := List.mem_flatMap.mp direct
    rw [Contribution.reExports_ofStatement] at added
    split at added
    · obtain ⟨specifier, known, rfl⟩ := List.mem_map.mp added
      exact .inl ⟨statement, statementMember, specifier, Option.mem_toList.mp known, rfl⟩
    · cases added
  · obtain ⟨names, _, added⟩ := List.mem_flatMap.mp settled
    unfold SourceModule.settled at added
    dsimp only at added
    split at added
    · obtain ⟨binding, bound, rfl⟩ := List.mem_map.mp added
      rw [binding?_ofTree] at bound
      have listed := List.mem_reverse.mp (List.mem_of_find?_eq_some (Option.mem_toList.mp bound))
      obtain ⟨statement, statementMember, binds⟩ := List.mem_flatMap.mp listed
      rw [Contribution.bindings_ofStatement] at binds
      split at binds
      · exact .inr ⟨statement, statementMember, binding, binds, names.1, rfl⟩
      · cases binds
    · cases added

/-- What is handed on under the name of a module is handed on as a whole. -/
theorem names_eq_none (member : entry ∈ (ofTree path language root).reExports)
    (hasNameSpace : entry.nameSpace.isSome) :
    entry.names = none := by
  rcases mem_reExports_ofTree member with ⟨statement, _, specifier, _, rfl⟩ | ⟨_, _, _, _, _, rfl⟩
  · unfold reExportOf at hasNameSpace ⊢
    dsimp only at hasNameSpace ⊢
    split at hasNameSpace
    · rfl
    · split at hasNameSpace <;> cases hasNameSpace
  · cases hasNameSpace

/-! ## Names -/

/-- The names that stand under the nodes of a file. -/
def writtenNames (root : Node) : List String :=
  root.substance.map fun node => Node.textOf (node.child? "name")

/-- The names that a file can ask other files for. -/
def importedNames (root : Node) : List String := "default" :: "*" :: writtenNames root

theorem item_mem_importedNames {item : Node} (member : item ∈ root.walk)
    (isItem : item.isComment = false) :
    Node.textOf (item.child? "name") ∈ importedNames root := by
  have inside := Node.mem_substance.mpr ⟨member, isItem⟩
  exact List.mem_cons_of_mem _ (List.mem_cons_of_mem _ (List.mem_map.mpr ⟨item, inside, rfl⟩))

theorem mem_walk_of_mem_namedChildren {node child : Node} (member : node ∈ root.walk)
    (childMember : child ∈ node.namedChildren) :
    child ∈ root.walk :=
  Node.mem_walk_of_mem_children member (List.mem_filter.mp childMember).1

theorem clauseNames_mem_importedNames {clause : Node} {names : String × String}
    (inside : clause ∈ root.walk) (member : names ∈ clauseNames clause) :
    names.2 ∈ importedNames root := by
  obtain ⟨item, itemMember, read⟩ := List.mem_filterMap.mp member
  have itemInside := mem_walk_of_mem_namedChildren inside itemMember
  split at read
  · rename_i isItem
    cases read
    exact item_mem_importedNames itemInside (Node.isComment_of_kind isItem (by decide))
  · cases read

theorem bindingsOfPart_mem_importedNames {part : Node} {specifier : String} {binding : Binding}
    (inside : part ∈ root.walk) (member : binding ∈ bindingsOfPart specifier part) :
    binding.imported ∈ importedNames root := by
  unfold bindingsOfPart at member
  split at member
  · rw [List.mem_singleton.mp member]
    exact List.mem_cons_self
  · obtain ⟨name, _, rfl⟩ := Option.map_eq_some_iff.mp (Option.mem_toList.mp member)
    exact List.mem_cons_of_mem _ List.mem_cons_self
  · obtain ⟨item, itemMember, read⟩ := List.mem_filterMap.mp member
    have itemInside := mem_walk_of_mem_namedChildren inside itemMember
    split at read
    · rename_i isItem
      cases read
      exact item_mem_importedNames itemInside (Node.isComment_of_kind isItem (by decide))
    · cases read
  · cases member

/-- Names are bound only where the syntax imports them. -/
theorem bindingsOf_mem_importedNames {statement : Node} {binding : Binding}
    (inside : statement ∈ root.walk) (member : binding ∈ bindingsOf statement) :
    binding.imported ∈ importedNames root := by
  obtain ⟨child, childMember, bound⟩ := List.mem_flatMap.mp member
  have childInside := mem_walk_of_mem_namedChildren inside childMember
  split at bound
  · split at bound
    · rw [List.mem_singleton.mp bound]
      exact List.mem_cons_of_mem _ List.mem_cons_self
    · cases bound
  split at bound
  · split at bound
    · obtain ⟨part, partMember, partBound⟩ := List.mem_flatMap.mp bound
      exact bindingsOfPart_mem_importedNames
        (mem_walk_of_mem_namedChildren childInside partMember) partBound
    · cases bound
  · cases bound

/-- The names that re-exports ask for are written in the file. -/
theorem reExports_mem_importedNames {names : List (String × String)} {pair : String × String}
    (member : entry ∈ (ofTree path language root).reExports) (named : entry.names = some names)
    (pairMember : pair ∈ names) :
    pair.2 ∈ importedNames root := by
  have top : ∀ statement ∈ root.namedChildren, statement ∈ root.walk :=
    fun statement => mem_walk_of_mem_namedChildren root.self_mem_walk
  rcases mem_reExports_ofTree member with
    ⟨statement, statementMember, specifier, _, rfl⟩ |
    ⟨statement, statementMember, binding, bound, name, rfl⟩
  · unfold reExportOf at named
    dsimp only at named
    split at named
    · cases named
    · split at named
      · cases named
      · cases named
        obtain ⟨clause, clauseMember, listed⟩ := List.mem_flatMap.mp pairMember
        have inside := Node.mem_walk_of_mem_children (top statement statementMember)
          (List.mem_filter.mp clauseMember).1
        exact clauseNames_mem_importedNames inside listed
  · cases named
    rw [List.mem_singleton.mp pairMember]
    exact bindingsOf_mem_importedNames (top statement statementMember) bound

end OfTree

end SourceModule
end ModuleAtlas
