import ModuleAtlas.Proofs.Types.ReExports

/-!
# Where declarations stand

Every declaration that a module lists or exports is declared by a node of its syntax tree.
-/

namespace ModuleAtlas

namespace Declaration

variable {root : Node} {declaration : Declaration} {exported : Bool} {statement : Option Node}

/-- What declares something is no comment. -/
theorem isComment_of_kindOf? {node : Node} {kind : String} (declares : kindOf? node = some kind) :
    node.isComment = false := by
  unfold Node.isComment
  cases isComment : node.kind == "comment" with
  | false => rfl
  | true =>
    rw [kindOf?, eq_of_beq isComment] at declares
    cases declares

/-- Variables are declared by nodes below their statement. -/
theorem node_mem_of_plainVariables {kind : String} {group : Node} (inside : group ∈ root.walk)
    (member : declaration ∈ plainVariables kind exported statement group) :
    declaration.node ∈ root.substance := by
  obtain ⟨declarator, declaratorMember, declared⟩ := List.mem_filterMap.mp member
  have below := SourceModule.mem_walk_of_mem_namedChildren inside declaratorMember
  split at declared
  · cases declared
  · rename_i isDeclarator
    split at declared
    · split at declared
      · cases declared
        have ofKind : (declarator.kind == "variable_declarator") = true :=
          by simpa using isDeclarator
        exact Node.mem_substance.mpr ⟨below, Node.isComment_of_kind ofKind (by decide)⟩
      · cases declared
    · cases declared

mutual

/-- What a statement declares, it declares by itself or by a node below it. -/
theorem node_mem_of_ofStatement : ∀ {node : Node}, node ∈ root.walk →
    declaration ∈ ofStatement exported statement node → declaration.node ∈ root.substance
  | .mk kind named role start line text children, inside, member => by
    rw [ofStatement] at member
    dsimp only at member
    split at member
    · exact node_mem_of_ofStatements (fun child childMember =>
        Node.mem_walk_of_mem_children inside childMember) member
    · split at member
      · cases member
      · split at member
        · exact node_mem_of_plainVariables inside member
        · rename_i declares _
          rw [List.mem_singleton.mp member]
          exact Node.mem_substance.mpr ⟨inside, isComment_of_kindOf? declares⟩

theorem node_mem_of_ofStatements : ∀ {nodes : List Node}, (∀ node ∈ nodes, node ∈ root.walk) →
    declaration ∈ ofStatements exported statement nodes → declaration.node ∈ root.substance
  | [], _, member => absurd member List.not_mem_nil
  | node :: rest, inside, member => by
    rw [ofStatements] at member
    rcases List.mem_append.mp member with first | later
    · split at first
      · exact node_mem_of_ofStatement (inside node List.mem_cons_self) first
      · cases first
    · exact node_mem_of_ofStatements (fun other otherMember =>
        inside other (List.mem_cons_of_mem _ otherMember)) later

end

end Declaration

namespace SourceModule

variable {path : Path} {language : Language} {root : Node} {declaration : Declaration}
  {name : String}

theorem mem_walk_of_child? {node child : Node} {role : String} (inside : node ∈ root.walk)
    (found : node.child? role = some child) :
    child ∈ root.walk :=
  Node.mem_walk_of_mem_children inside (List.mem_of_find?_eq_some found)

/-- A child with a role is no comment. -/
theorem mem_substance_of_child? {node child : Node} {role : String} (inside : node ∈ root.walk)
    (found : node.child? role = some child) :
    child ∈ root.substance := by
  unfold Node.child? at found
  have ofRole := List.find?_some found
  refine Node.mem_substance.mpr
    ⟨Node.mem_walk_of_mem_children inside (List.mem_of_find?_eq_some found), ?_⟩
  rw [Node.isComment, eq_of_beq ofRole, Option.isNone_some, Bool.and_false]

namespace Contribution

/-- What a statement declares stands in the tree. -/
theorem node_mem_of_declarations {statement : Node} (inside : statement ∈ root.walk)
    (member : declaration ∈ (ofStatement statement).declarations) :
    declaration.node ∈ root.substance := by
  unfold ofStatement at member
  split at member
  · cases member
  split at member
  · unfold ofExport at member
    split at member
    · cases member
    · rename_i declared _ found
      exact Declaration.node_mem_of_ofStatement (mem_walk_of_child? inside found) member
    · rw [(ofExported_rest statement).1] at member
      cases member
  · exact Declaration.node_mem_of_ofStatement inside member

/-- What a statement exports stands in the tree. -/
theorem node_mem_of_exports {statement : Node} (inside : statement ∈ root.walk)
    (member : (name, declaration) ∈ (ofStatement statement).exports) :
    declaration.node ∈ root.substance := by
  unfold ofStatement at member
  split at member
  · cases member
  split at member
  · unfold ofExport at member
    split at member
    · cases member
    · rename_i declared _ found
      obtain ⟨other, otherMember, same⟩ := List.mem_map.mp member
      cases same
      exact Declaration.node_mem_of_ofStatement (mem_walk_of_child? inside found) otherMember
    · unfold ofExported at member
      split at member
      · rename_i value found
        split at member
        · cases member
        · cases List.mem_singleton.mp member
          split at found
          · exact mem_substance_of_child? inside found
          · cases found
      · cases member
  · cases member

end Contribution

/-- The declarations that a module lists under a name or exports. -/
def Has (source : SourceModule) (declaration : Declaration) : Prop :=
  (∃ name, declaration ∈ source.lookup name) ∨ ∃ name, (name, declaration) ∈ source.exports

theorem node_mem_of_lookup (member : declaration ∈ (ofTree path language root).lookup name) :
    declaration.node ∈ root.substance := by
  rw [lookup_ofTree] at member
  obtain ⟨statement, statementMember, declared⟩ :=
    List.mem_flatMap.mp (List.mem_filter.mp member).1
  exact Contribution.node_mem_of_declarations
    (mem_walk_of_mem_namedChildren root.self_mem_walk statementMember) declared

/-- Every declaration of a module is declared by a node of its syntax tree. -/
theorem Has.node_mem_substance (has : (ofTree path language root).Has declaration) :
    declaration.node ∈ root.substance := by
  rcases has with ⟨name, listed⟩ | ⟨name, exported⟩
  · exact node_mem_of_lookup listed
  · rw [exports_ofTree] at exported
    rcases List.mem_append.mp exported with direct | clause
    · obtain ⟨statement, statementMember, declared⟩ := List.mem_flatMap.mp direct
      exact Contribution.node_mem_of_exports
        (mem_walk_of_mem_namedChildren root.self_mem_walk statementMember) declared
    · obtain ⟨names, _, settled⟩ := List.mem_flatMap.mp clause
      obtain ⟨target, targetMember, same⟩ := List.mem_map.mp settled
      cases same
      exact node_mem_of_lookup targetMember

end SourceModule

/-!
## Keys of declarations

While its members are collected a declaration is known by its file and the place where it starts
there.  A file tree has no more such keys than its files have syntax nodes, and so no more than the
bound for walks over it.
-/

/-! ## The nodes of a file tree -/

namespace Entry

mutual

/-- The syntax nodes of all files, comments apart, each with the names at which its file stands. -/
def nodesOf : Entry → List (List String × Node)
  | .file _ parsed => (parsed.toList.flatMap Node.substance).map fun node => ([], node)
  | .link _ => []
  | .directory entries => nodesAmong entries

/-- The syntax nodes of all files among the entries of a directory. -/
def nodesAmong : List (String × Entry) → List (List String × Node)
  | [] => []
  | (name, entry) :: rest =>
    (nodesOf entry).map (fun found => (name :: found.1, found.2)) ++ nodesAmong rest

end

theorem mem_nodesAmong
    {entries : List (String × Entry)} {name : String} {entry : Entry} {names : List String}
    {node : Node} (child : (name, entry) ∈ entries) (member : (names, node) ∈ nodesOf entry) :
    (name :: names, node) ∈ nodesAmong entries := by
  induction entries with
  | nil => cases child
  | cons pair rest ih =>
    rw [nodesAmong, List.mem_append]
    rcases List.mem_cons.mp child with rfl | later
    · exact .inl (List.mem_map.mpr ⟨_, member, rfl⟩)
    · exact .inr (ih later)

/-- The nodes of a file that names lead to. -/
theorem mem_nodesOf {names : List String} {entry : Entry} {bytes : ByteArray} {parsed node : Node}
    (known : entry.at? names = some (.file bytes (some parsed)))
    (member : node ∈ parsed.substance) :
    (names, node) ∈ nodesOf entry := by
  induction names generalizing entry with
  | nil =>
    cases known
    simpa [nodesOf] using member
  | cons name rest ih =>
    rw [at?_cons, Option.bind_eq_some_iff] at known
    obtain ⟨child, childKnown, restKnown⟩ := known
    cases entry with
    | directory entries =>
      exact mem_nodesAmong (mem_of_lookup_eq_some childKnown) (ih restKnown)
    | file bytes tree => cases childKnown
    | link target => cases childKnown

mutual

theorem length_nodesOf : ∀ entry : Entry,
    (nodesOf entry).length = total (entry.trees.map fun parsed => parsed.substance.length)
  | .file _ none => rfl
  | .file _ (some parsed) => by simp [nodesOf, trees, total]
  | .link _ => rfl
  | .directory entries => length_nodesAmong entries

theorem length_nodesAmong : ∀ entries : List (String × Entry),
    (nodesAmong entries).length =
      total ((treesOf entries).map fun parsed => parsed.substance.length)
  | [] => rfl
  | (_, entry) :: rest => by
    rw [nodesAmong, treesOf, List.length_append, List.length_map, List.map_append,
      total_append, length_nodesOf entry, length_nodesAmong rest]

end

end Entry

/-! ## Keys -/

namespace FileTree

/-- The keys of all nodes of a file tree that are no comments. -/
def keys (tree : FileTree) : Finset (Path × Nat) :=
  (tree.root.nodesOf.map fun found => (Path.ofRoot found.1, found.2.start)).toFinset

theorem mem_keys {tree : FileTree} {names : List String} {bytes : ByteArray} {parsed node : Node}
    (known : tree.root.at? names = some (.file bytes (some parsed)))
    (member : node ∈ parsed.substance) :
    (Path.ofRoot names, node.start) ∈ tree.keys :=
  List.mem_toFinset.mpr (List.mem_map.mpr ⟨_, Entry.mem_nodesOf known member, rfl⟩)

theorem card_keys_lt (tree : FileTree) : tree.keys.card < Session.walkBound tree := by
  refine Nat.lt_of_le_of_lt (List.toFinset_card_le _) ?_
  rw [List.length_map, Entry.length_nodesOf]
  unfold Session.walkBound
  omega

end FileTree

namespace SourceModule

/-- A module without text has no declarations. -/
theorem not_has_emptyTree {path : Path} {language : Language} {declaration : Declaration} :
    ¬(ofTree path language Session.emptyTree).Has declaration := by
  rintro (⟨name, listed⟩ | ⟨name, exported⟩)
  · rw [lookup_ofTree] at listed
    cases listed
  · rw [exports_ofTree] at exported
    cases exported

/-- The key of a declaration of a module that stands in a file tree. -/
theorem StandsIn.key_mem_keys {source : SourceModule} {tree : FileTree} {declaration : Declaration}
    (stands : source.StandsIn tree) (has : source.Has declaration) :
    (source.path, declaration.node.start) ∈ tree.keys := by
  have read := stands.read
  unfold Session.moduleAt at read
  split at read
  · cases read
  · split at read
    · rename_i names bytes parsed found
      obtain ⟨resolved, known, _⟩ := FileTree.resolve?_of_lookup found
      rw [stands.canonical.resolve?_eq] at resolved
      rw [← Except.ok.inj read] at has
      cases parsed with
      | none => exact absurd has not_has_emptyTree
      | some parsed =>
        rw [Option.some.inj resolved]
        exact FileTree.mem_keys known has.node_mem_substance
    · cases read

end SourceModule
end ModuleAtlas
