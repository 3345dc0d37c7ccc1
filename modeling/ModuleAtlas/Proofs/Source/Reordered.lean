import Mathlib.Data.List.Nodup
import Mathlib.Data.List.Perm.Basic
import ModuleAtlas.Proofs.Source.ExportedNames

/-!
# Reordered statements

Every statement contributes to an index by itself, and clauses are settled when all statements are
known.  So another order of the statements rearranges the entries of an index and changes none of
them: a clause may stand before or after what it exports.  Only of two imports with one local name
the later one counts, and then the order does matter.
-/

namespace ModuleAtlas
namespace SourceModule

/-! ## Contributions -/

/-- Two contributions add the same up to order. -/
structure Contribution.Permuted (added other : Contribution) : Prop where
  declarations : added.declarations.Perm other.declarations
  exports : added.exports.Perm other.exports
  reExports : added.reExports.Perm other.reExports
  bindings : added.bindings.Perm other.bindings
  pending : added.pending.Perm other.pending

theorem Contribution.permuted_ofStatements {statements others : List Node}
    (reordered : statements.Perm others) :
    (ofStatements statements).Permuted (ofStatements others) where
  declarations := reordered.flatMap_right _
  exports := reordered.flatMap_right _
  reExports := reordered.flatMap_right _
  bindings := reordered.flatMap_right _
  pending := reordered.flatMap_right _

/-- What the import statements of a file bind, one after the other. -/
def importedBindings (root : Node) : List Binding :=
  (root.namedChildren.filter fun statement =>
    statement.kind == "import_statement").flatMap bindingsOf

theorem bindings_ofStatements (root : Node) :
    (Contribution.ofStatements root.namedChildren).bindings = importedBindings root := by
  unfold Contribution.ofStatements importedBindings
  dsimp only
  induction root.namedChildren with
  | nil => rfl
  | cons statement rest ih =>
    rw [List.flatMap_cons, List.filter_cons, ih, Contribution.bindings_ofStatement]
    cases statement.kind == "import_statement" with
    | true => simp
    | false => simp

/-! ## Distinct names -/

section Bindings

variable {bindings others : List Binding}

/-- Without repeated names a binding is found wherever it stands. -/
theorem find?_eq_some_iff_of_nodup (distinct : (bindings.map Binding.name).Nodup) (name : String)
    (binding : Binding) :
    bindings.find? (fun other => other.name == name) = some binding ↔
      binding ∈ bindings ∧ binding.name = name := by
  constructor
  · intro found
    have named := List.find?_some found
    exact ⟨List.mem_of_find?_eq_some found, eq_of_beq named⟩
  · rintro ⟨member, rfl⟩
    cases found : bindings.find? (fun other => other.name == binding.name) with
    | none => exact absurd (beq_self_eq_true _) (List.find?_eq_none.mp found binding member)
    | some first =>
      have named := List.find?_some found
      have firstMember := List.mem_of_find?_eq_some found
      rw [List.inj_on_of_nodup_map distinct firstMember member (eq_of_beq named)]

/-- Where every name is bound once, the order of the bindings does not matter. -/
theorem find?_eq_of_perm (permuted : bindings.Perm others)
    (distinct : (bindings.map Binding.name).Nodup) (name : String) :
    bindings.find? (fun binding => binding.name == name) =
      others.find? (fun binding => binding.name == name) := by
  have otherDistinct : (others.map Binding.name).Nodup :=
    (permuted.map Binding.name).nodup_iff.mp distinct
  ext binding
  rw [find?_eq_some_iff_of_nodup distinct, find?_eq_some_iff_of_nodup otherDistinct,
    permuted.mem_iff]

end Bindings

/-! ## Settling -/

/-- Two indexes hold the same entries up to order. -/
structure SameUpToOrder (index other : SourceModule) : Prop where
  exports : index.exports.Perm other.exports
  reExports : index.reExports.Perm other.reExports
  bindings : ∀ name, index.binding? name = other.binding? name
  declarations : ∀ name, (index.lookup name).Perm (other.lookup name)

section Settled

variable {index other : SourceModule}
  (declared : ∀ name, (index.lookup name).Perm (other.lookup name))

include declared

theorem exports_settled_perm (names : String × String) :
    (index.settled names).exports.Perm (other.settled names).exports :=
  (declared names.2).map _

/-- Whether a name is handed on depends on whether it is declared, in whatever order. -/
theorem reExports_settled_eq (bound : ∀ name, index.binding? name = other.binding? name)
    (names : String × String) :
    (index.settled names).reExports = (other.settled names).reExports := by
  have sameCase : index.lookup names.2 = [] ↔ other.lookup names.2 = [] := by
    constructor
    · intro undeclared
      have permuted := declared names.2
      rw [undeclared] at permuted
      exact permuted.symm.eq_nil
    · intro undeclared
      have permuted := declared names.2
      rw [undeclared] at permuted
      exact permuted.eq_nil
  unfold settled
  simp only [sameCase, bound]

end Settled

/-- Everything that the clauses of a file name is exported: all declarations of a local name, and
otherwise what an import binds to it. -/
def SettlesClauses (index : SourceModule) : Prop :=
  ∀ name localName, index.ExportsLocal name localName →
    (∀ declaration ∈ index.lookup localName, (name, declaration) ∈ index.exports) ∧
    ∀ binding, index.lookup localName = [] → index.binding? localName = some binding →
      handedOf binding name ∈ index.reExports

section OfTree

variable (path : Path) (language : Language) {root other : Node}

/-- In a file every clause is settled, wherever it stands. -/
theorem settlesClauses_ofTree (root : Node) : (ofTree path language root).SettlesClauses := by
  intro name localName exported
  constructor
  · intro declaration declared
    unfold ExportsLocal at exported
    rw [ofTree_root] at exported
    rw [exports_ofTree]
    apply List.mem_append_right
    apply List.mem_flatMap.mpr
    refine ⟨(name, localName), List.mem_flatMap.mpr exported, ?_⟩
    exact List.mem_map_of_mem declared
  · intro binding undeclared bound
    apply mem_reExports_ofTree_iff.mpr
    exact .inr ⟨name, localName, binding, exported, lookup_ofTree_eq_nil_iff.mp undeclared, bound,
      rfl⟩

theorem lookup_ofTree_perm (reordered : root.namedChildren.Perm other.namedChildren)
    (name : String) :
    ((ofTree path language root).lookup name).Perm ((ofTree path language other).lookup name) := by
  rw [lookup_ofTree, lookup_ofTree]
  exact (Contribution.permuted_ofStatements reordered).declarations.filter _

theorem binding?_ofTree_eq (reordered : root.namedChildren.Perm other.namedChildren)
    (distinct : ((importedBindings root).map Binding.name).Nodup) (name : String) :
    (ofTree path language root).binding? name = (ofTree path language other).binding? name := by
  rw [← bindings_ofStatements] at distinct
  rw [binding?_ofTree, binding?_ofTree]
  apply find?_eq_of_perm
  · exact (List.reverse_perm _).trans
      ((Contribution.permuted_ofStatements reordered).bindings.trans (List.reverse_perm _).symm)
  · rw [List.map_reverse]
    exact List.nodup_reverse.mpr distinct

/-- As long as imports bind distinct names, the order of the statements of a file does not matter
for its index, and clauses export what they name wherever they stand. -/
theorem sameUpToOrder_of_reordered (reordered : root.namedChildren.Perm other.namedChildren)
    (distinct : ((importedBindings root).map Binding.name).Nodup) :
    (ofTree path language root).SameUpToOrder (ofTree path language other) ∧
      (ofTree path language other).SettlesClauses := by
  have added := Contribution.permuted_ofStatements reordered
  have declared := lookup_ofTree_perm path language reordered
  have bound := binding?_ofTree_eq path language reordered distinct
  refine ⟨⟨?_, ?_, bound, declared⟩, settlesClauses_ofTree path language other⟩
  · rw [exports_ofTree, exports_ofTree]
    apply added.exports.append
    exact added.pending.flatMap fun names _ => exports_settled_perm declared names
  · rw [reExports_ofTree, reExports_ofTree]
    apply added.reExports.append
    apply added.pending.flatMap
    intro names _
    rw [reExports_settled_eq declared bound]

end OfTree

/-! ## A file with its clauses in front -/

/-- An identifier in some role. -/
def identifierNode (role : Option String) (name : String) : Node :=
  .mk "identifier" true role 0 1 name []

/-- A signature of an overloaded function, somewhere in a file. -/
def overloadNode (start : Nat) (name : String) : Node :=
  .mk "function_signature" true none start 1 "" [identifierNode (some "name") name]

/-- The import of a whole module. -/
def wholeImportNode (name specifier : String) : Node :=
  .mk "import_statement" true none 0 1 "" [
    .mk "import_clause" true none 0 1 "" [
      .mk "namespace_import" true none 0 1 "" [identifierNode none name]],
    .mk "string" true (some "source") 0 1 ("'" ++ specifier ++ "'") []]

/-- The default export of an identifier. -/
def defaultNode (name : String) : Node :=
  .mk "export_statement" true none 0 1 "" [
    .mk "default" false none 0 1 "default" [], identifierNode (some "value") name]

/-- The export of some local names. -/
def clauseNode (names : List String) : Node :=
  .mk "export_statement" true none 0 1 "" [
    .mk "export_clause" true none 0 1 "" (names.map fun name =>
      .mk "export_specifier" true none 0 1 "" [identifierNode (some "name") name])]

/-- A file that exports an overloaded function and an imported module before it has them. -/
def clausesFirst : Node :=
  .mk "program" true none 0 1 "" [defaultNode "area", clauseNode ["area", "shapes"],
    wholeImportNode "shapes" "./shapes", overloadNode 1 "area", overloadNode 2 "area"]

/-- The same file from its last statement to its first one. -/
def clausesLast : Node := .mk "program" true none 0 1 "" clausesFirst.children.reverse

/-- The index of a file in the root directory. -/
def areaIndex (root : Node) : SourceModule := .ofTree (.ofRoot ["area.ts"]) .plain root

theorem clausesFirst_sameUpToOrder :
    clausesFirst.namedChildren.Perm clausesLast.namedChildren ∧
      ((importedBindings clausesFirst).map Binding.name).Nodup ∧
      (areaIndex clausesFirst).SameUpToOrder (areaIndex clausesLast) ∧
      (areaIndex clausesLast).SettlesClauses ∧
      (areaIndex clausesFirst).exports.map (fun entry => (entry.1, entry.2.node.start)) =
        [("default", 1), ("default", 2), ("area", 1), ("area", 2)] ∧
      (areaIndex clausesFirst).reExports = [⟨"./shapes", some [("shapes", "*")], none⟩] := by
  have reordered : clausesFirst.namedChildren.Perm clausesLast.namedChildren :=
    (List.reverse_perm clausesFirst.children).symm.filter Node.named
  have distinct : ((importedBindings clausesFirst).map Binding.name).Nodup := by decide
  obtain ⟨same, settles⟩ :=
    sameUpToOrder_of_reordered (.ofRoot ["area.ts"]) .plain reordered distinct
  refine ⟨reordered, distinct, same, settles, ?_, ?_⟩
  · decide
  · decide

end SourceModule
end ModuleAtlas
