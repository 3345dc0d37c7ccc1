import ModuleAtlas.Invocation
import ModuleAtlas.Proofs.Listwise
import ModuleAtlas.Proofs.Source.Places
import ModuleAtlas.Proofs.Task.Steady
import ModuleAtlas.Proofs.Text.Pieces

/-!
# Catalogued declarations

The catalogue of a file has one item for each place where a declaration stands, however deep that
is.  The items are in the order of their lines, and on one line in the order of their places.  The
summary of several files has the number of items of each kind that occurs, and the number of all
items.
-/

namespace ModuleAtlas

open Node (Place)

/-! ## Lines that are reported -/

namespace Node

/-- The kinds of nodes that only stand in front of a declaration. -/
def wrapperKinds : List String := ["export_statement", "ambient_declaration"]

/-- The export statement or ambient declaration that directly holds what stands at a place. -/
def wrapper? (root : Node) (place : Place) : Option Node :=
  if place = [] then none
  else (root.at? place.dropLast).filter fun parent => wrapperKinds.contains parent.kind

/-- The line that is reported for a place: that of the node, or of what directly holds it and stands
in front of it. -/
def reportedLine (root : Node) (place : Place) : Nat :=
  (((root.wrapper? place).or (root.at? place)).map line).getD 0

end Node

/-! ## Nodes with their parents -/

namespace Placed

/-- The node at a place with its parents, in a tree with given parents. -/
def at? : Option Node → Option Node → Node → Place → Option Placed
  | parent, grandparent, node, [] => some ⟨node, parent, grandparent⟩
  | parent, _, node, index :: rest =>
    (node.children[index]?).bind fun child => at? (some node) parent child rest

variable {root : Node} {parent grandparent : Option Node} {place : Place} {placed : Placed}
  {item : Item}

theorem map_node_at? (parent grandparent : Option Node) (root : Node) (place : Place) :
    (at? parent grandparent root place).map Placed.node = root.at? place := by
  induction place generalizing root parent grandparent with
  | nil => rfl
  | cons index rest ih =>
    rw [at?, Node.at?, Option.map_bind]
    exact congrArg _ (funext fun child => ih _ _ child)

theorem at?_node (found : at? parent grandparent root place = some placed) :
    root.at? place = some placed.node := by
  rw [← map_node_at? parent grandparent, found, Option.map_some]

/-- The parent stands at the place without its last index. -/
theorem at?_parent (found : at? parent grandparent root place = some placed) :
    placed.parent = if place = [] then parent else root.at? place.dropLast := by
  induction place generalizing root parent grandparent with
  | nil =>
    cases found
    rfl
  | cons index rest ih =>
    obtain ⟨child, known, inside⟩ := Option.bind_eq_some_iff.mp found
    rw [if_neg (List.cons_ne_nil _ _), ih inside]
    cases rest with
    | nil => rfl
    | cons next others =>
      rw [if_neg (List.cons_ne_nil _ _), List.dropLast_cons_of_ne_nil (List.cons_ne_nil _ _),
        Node.at?, known, Option.bind_some]

/-- A place is reported with the line of the statement around it. -/
theorem line_of_at? (found : at? none none root place = some placed) :
    placed.line = root.reportedLine place := by
  unfold line Node.reportedLine Node.wrapper?
  rw [at?_parent found, at?_node found]
  split_ifs
  · rfl
  · cases root.at? place.dropLast with
    | none => rfl
    | some parent =>
      change (if Node.wrapperKinds.contains parent.kind then _ else _) = _
      rw [Option.filter_some]
      split_ifs <;> rfl

mutual

/-- A walk comes by the nodes at all places, with their parents. -/
theorem map_at?_places (parent grandparent : Option Node) :
    ∀ root : Node, root.places.map (at? parent grandparent root) =
      (walk parent grandparent root).map some
  | .mk kind named role start line text children => by
    rw [Node.places, walk, List.map_cons, List.map_cons]
    exact congrArg _ (map_at?_placesAmong parent grandparent _ [] rfl)

theorem map_at?_placesAmong (parent grandparent : Option Node) (root : Node) (before : List Node) :
    ∀ {nodes : List Node}, root.children = before ++ nodes →
      (Node.placesAmong before.length nodes).map (at? parent grandparent root) =
        (walkAll (some root) parent nodes).map some
  | [], _ => rfl
  | node :: rest, split => by
    have here : root.children[before.length]? = some node := by simp [split]
    have further : root.children = (before ++ [node]) ++ rest := by simp [split]
    have onward := map_at?_placesAmong parent grandparent root (before ++ [node]) further
    rw [List.length_append, List.length_singleton] at onward
    rw [Node.placesAmong, walkAll, List.map_append, List.map_append, onward, List.map_map,
      ← map_at?_places (some root) parent node]
    congr 2
    funext place
    rw [Function.comp, at?, here, Option.bind_some]

end

/-! ## Items -/

/-- The kinds of nodes that the catalogue lists, and the kinds of their items. -/
def declarationKinds : List (String × String) :=
  [("interface_declaration", "interface"), ("type_alias_declaration", "type"),
    ("class_declaration", "class"), ("abstract_class_declaration", "class"),
    ("enum_declaration", "enum"), ("function_declaration", "function"),
    ("generator_function_declaration", "function"), ("function_signature", "function"),
    ("method_definition", "method")]

/-- Exactly the nodes of these kinds have an item. -/
theorem map_kind_item? (placed : Placed) :
    placed.item?.map Item.kind = declarationKinds.lookup placed.node.kind := by
  unfold item?
  split
  case h_10 =>
    refine (List.lookup_eq_none_iff.mpr ?_).symm
    simp_all [declarationKinds]
  all_goals
    rename_i known
    rw [known]
    rfl

/-- An item has the name of its declaration and the line that is reported for it. -/
theorem item?_shared (found : placed.item? = some item) :
    item.name = placed.node.declaredName ∧ item.line = placed.line := by
  unfold item? at found
  split at found
  all_goals cases found
  all_goals exact ⟨rfl, rfl⟩

end Placed

/-! ## The catalogue of a file -/

namespace Node

/-- The item for a place, if a declaration stands there. -/
def itemAt? (root : Node) (place : Place) : Option Item :=
  (Placed.at? none none root place).bind Placed.item?

variable {root : Node} {place : Place} {item : Item}

theorem map_kind_itemAt? (root : Node) (place : Place) :
    (root.itemAt? place).map Item.kind =
      (root.at? place).bind fun node => Placed.declarationKinds.lookup node.kind := by
  rw [itemAt?, Option.map_bind, ← Placed.map_node_at? none none, Option.bind_map]
  exact congrArg _ (funext Placed.map_kind_item?)

/-- The item describes the declaration at a place: its kind and name are those of the node, its line
is the one that is reported for the place, and all else is read off the node with its parents. -/
structure Lists (root : Node) (place : Place) (item : Item) : Prop where
  described : root.itemAt? place = some item
  node : ∃ node, root.at? place = some node ∧
    Placed.declarationKinds.lookup node.kind = some item.kind ∧ item.name = node.declaredName
  line : item.line = root.reportedLine place

theorem lists_of_itemAt? (described : root.itemAt? place = some item) :
    root.Lists place item := by
  have ofKind := map_kind_itemAt? root place
  obtain ⟨placed, found, gives⟩ := Option.bind_eq_some_iff.mp described
  obtain ⟨name, line⟩ := Placed.item?_shared gives
  rw [described, Placed.at?_node found] at ofKind
  exact ⟨described, ⟨placed.node, Placed.at?_node found, ofKind.symm, name⟩,
    line.trans (congrArg _ (Placed.line_of_at? found))⟩

/-- The places of declarations in the order of a walk. -/
def declarationPlaces (root : Node) : List Place :=
  root.places.filter fun place => (root.itemAt? place).isSome

theorem mem_declarationPlaces :
    place ∈ root.declarationPlaces ↔
      ∃ node, root.at? place = some node ∧
        (Placed.declarationKinds.lookup node.kind).isSome = true := by
  have ofKind := congrArg Option.isSome (map_kind_itemAt? root place)
  rw [Option.isSome_map] at ofKind
  rw [declarationPlaces, List.mem_filter, mem_places, ofKind]
  cases root.at? place with
  | none => simp
  | some node => simp

/-- The order of places by the lines that are reported for them. -/
def lineLe (root : Node) (first second : Place) : Bool :=
  decide (root.reportedLine first ≤ root.reportedLine second)

theorem lineLe_trans (root : Node) (first second third : Place) :
    root.lineLe first second = true → root.lineLe second third = true →
      root.lineLe first third = true := by
  simp only [lineLe, decide_eq_true_eq]
  exact Nat.le_trans

theorem lineLe_total (root : Node) (first second : Place) :
    (root.lineLe first second || root.lineLe second first) = true := by
  simp only [lineLe, Bool.or_eq_true, decide_eq_true_eq]
  exact Nat.le_total _ _

/-- The places of declarations in the order of the catalogue. -/
def cataloguePlaces (root : Node) : List Place := root.declarationPlaces.mergeSort root.lineLe

/-- Where two places are on one line, sorting by lines keeps them as they were. -/
theorem filter_cataloguePlaces (root : Node) (line : Nat) :
    (root.cataloguePlaces.filter fun place => root.reportedLine place == line) =
      root.declarationPlaces.filter fun place => root.reportedLine place == line := by
  have onLine :
      (root.declarationPlaces.filter fun place => root.reportedLine place == line).Pairwise
        fun first second => root.lineLe first second = true := by
    refine List.pairwise_of_forall_mem_list fun first firstMember second secondMember => ?_
    have firstLine := eq_of_beq (List.mem_filter.mp firstMember).2
    have secondLine := eq_of_beq (List.mem_filter.mp secondMember).2
    exact decide_eq_true (firstLine.trans secondLine.symm).le
  have kept := (List.sublist_mergeSort root.lineLe_trans root.lineLe_total onLine
    List.filter_sublist).filter fun place => root.reportedLine place == line
  rw [List.filter_filter] at kept
  simp only [Bool.and_self] at kept
  refine (kept.eq_of_length ?_).symm
  exact ((List.mergeSort_perm _ _).filter _).length_eq.symm

/-- Declarations are catalogued by line, and in a line by their order in the file. -/
theorem pairwise_cataloguePlaces (root : Node) :
    root.cataloguePlaces.Pairwise fun first second =>
      root.reportedLine first < root.reportedLine second ∨
        root.reportedLine first = root.reportedLine second ∧ Before first second := by
  have ordered := List.pairwise_mergeSort root.lineLe_trans root.lineLe_total root.declarationPlaces
  refine List.pairwise_iff_forall_sublist.mpr fun {first second} pair => ?_
  have above := of_decide_eq_true (List.pairwise_iff_forall_sublist.mp ordered pair)
  rcases Nat.lt_or_eq_of_le above with earlier | same
  · exact .inl earlier
  · refine .inr ⟨same, ?_⟩
    have together := pair.filter fun place => root.reportedLine place == root.reportedLine second
    rw [filter_cataloguePlaces, List.filter_cons, List.filter_cons, if_pos (beq_iff_eq.mpr same),
      if_pos (beq_self_eq_true _), List.filter_nil] at together
    exact List.pairwise_iff_forall_sublist.mp (pairwise_places root)
      (together.trans (List.filter_sublist.trans List.filter_sublist))

theorem filterMap_item?_walk (root : Node) :
    (Placed.walk none none root).filterMap Placed.item? = root.places.filterMap root.itemAt? := by
  have walked := congrArg (List.filterMap fun placed => placed.bind Placed.item?)
    (Placed.map_at?_places none none root)
  rw [List.filterMap_map, List.filterMap_map] at walked
  exact walked.symm

/-- The catalogue has the item of each place of a declaration. -/
theorem catalogue_eq (root : Node) :
    Item.catalogue root =
      root.cataloguePlaces.map fun place => (root.itemAt? place).getD default := by
  have items : root.places.filterMap root.itemAt? =
      root.declarationPlaces.map fun place => (root.itemAt? place).getD default := by
    rw [declarationPlaces]
    induction root.places with
    | nil => rfl
    | cons place rest ih =>
      rw [List.filterMap_cons, List.filter_cons, ih]
      cases described : root.itemAt? place with
      | none => rfl
      | some item => simp [described]
  rw [Item.catalogue, filterMap_item?_walk, items, cataloguePlaces]
  refine (List.map_mergeSort fun first firstMember second secondMember => ?_).symm
  have lineOf : ∀ place ∈ root.declarationPlaces,
      ((root.itemAt? place).getD default).line = root.reportedLine place := fun place member => by
    obtain ⟨item, described⟩ := Option.isSome_iff_exists.mp (List.mem_filter.mp member).2
    rw [described]
    exact (lists_of_itemAt? described).line
  rw [lineOf first firstMember, lineOf second secondMember, lineLe]
  simp only [Int.ofNat_le]

/-- The items are those of the places of declarations, one after the other. -/
theorem listwise_catalogue (root : Node) :
    Listwise root.Lists root.cataloguePlaces (Item.catalogue root) := by
  rw [catalogue_eq]
  have same : Listwise (fun place other => other = place ∧ place ∈ root.cataloguePlaces)
      root.cataloguePlaces root.cataloguePlaces := .refl fun _ member => ⟨rfl, member⟩
  refine same.map_right ?_
  rintro place _ ⟨rfl, member⟩
  obtain ⟨item, described⟩ :=
    Option.isSome_iff_exists.mp (List.mem_filter.mp (List.mem_mergeSort.mp member)).2
  rw [described]
  exact lists_of_itemAt? described

/-- A list has one item for each place of a declaration.  The items are in the order of the lines
that are reported for them, and on one line in the order of the places. -/
def Catalogues (root : Node) (items : List Item) : Prop :=
  ∃ places : List Place, Listwise root.Lists places items ∧
    (places.Pairwise fun first second =>
      root.reportedLine first < root.reportedLine second ∨
        root.reportedLine first = root.reportedLine second ∧ Before first second) ∧
    ∀ place, place ∈ places ↔ ∃ node, root.at? place = some node ∧
      (Placed.declarationKinds.lookup node.kind).isSome = true

theorem catalogues_catalogue (root : Node) : root.Catalogues (Item.catalogue root) :=
  ⟨root.cataloguePlaces, listwise_catalogue root, pairwise_cataloguePlaces root, fun _ =>
    List.mem_mergeSort.trans mem_declarationPlaces⟩

end Node

/-! ## The summary -/

namespace Item

/-- The kinds of items. -/
def kinds : List String := ["interface", "type", "class", "enum", "function", "method"]

theorem kind_mem_kinds {root : Node} {item : Item} (listed : item ∈ catalogue root) :
    item.kind ∈ kinds := by
  obtain ⟨place, -, lists⟩ := (Node.listwise_catalogue root).exists_origin listed
  obtain ⟨node, -, ofKind, -⟩ := lists.node
  have known := List.mem_map_of_mem (f := Prod.snd) (mem_of_lookup_eq_some ofKind)
  exact (by decide : Placed.declarationKinds.map Prod.snd ⊆ kinds) known

/-- Kinds of items have different plurals. -/
theorem plural_inj {kind other : String} (known : kind ∈ kinds) (otherKnown : other ∈ kinds)
    (same : plural kind = plural other) : kind = other :=
  (by decide : ∀ kind ∈ kinds, ∀ other ∈ kinds, plural kind = plural other → kind = other)
    kind known other otherKnown same

theorem plural_ne_total {kind : String} (known : kind ∈ kinds) : plural kind ≠ "total" :=
  (by decide : ∀ kind ∈ kinds, plural kind ≠ "total") kind known

/-- The numbers of items of each kind that occurs, under the plurals of the kinds. -/
def counts (occurring : List String) : List (String × Json) :=
  (Text.sortedSet occurring).map fun kind => (plural kind, .int (occurring.countP (· == kind)))

variable {occurring : List String}

theorem mem_counts {key : String} {value : Json} :
    (key, value) ∈ counts occurring ↔
      ∃ kind ∈ occurring, key = plural kind ∧ value = .int (occurring.countP (· == kind)) := by
  simp only [counts, List.mem_map, Text.mem_sortedSet, Prod.mk.injEq, eq_comm]

/-- No kind is counted twice, and none is called the total. -/
theorem nodup_keys_counts (known : ∀ kind ∈ occurring, kind ∈ kinds) :
    ((counts occurring ++ [("total", Json.int occurring.length)]).map Prod.fst).Nodup := by
  rw [counts, List.map_append, List.map_map]
  refine List.nodup_append.mpr ⟨?_, List.nodup_singleton _, ?_⟩
  · refine List.pairwise_map.mpr
      ((Text.pairwise_sortedSet occurring).imp_of_mem fun member later before same => ?_)
    have equal := plural_inj (known _ (Text.mem_sortedSet.mp member))
      (known _ (Text.mem_sortedSet.mp later)) same
    exact absurd before (equal ▸ String.lt_irrefl _)
  · intro key member other total same
    obtain ⟨kind, occurs, rfl⟩ := List.mem_map.mp member
    exact plural_ne_total (known kind (Text.mem_sortedSet.mp occurs))
      (same.trans (List.mem_singleton.mp total))

/-- The summary has the counts of the kinds, and after them the total. -/
theorem summarize_eq (known : ∀ kind ∈ occurring, kind ∈ kinds) :
    summarize occurring =
      .object (counts occurring ++ [("total", .int occurring.length)]) := by
  have distinct := nodup_keys_counts known
  rw [List.map_append] at distinct
  obtain ⟨ofCounts, -, apart⟩ := List.nodup_append.mp distinct
  have same : (fun kind => (plural kind, Json.int (occurring.filter (· == kind)).length)) =
      fun kind => (plural kind, Json.int (occurring.countP (· == kind))) := by
    funext kind
    rw [List.countP_eq_length_filter]
  rw [summarize, same, ← counts, Keyed.ofPairs_eq_self ofCounts, Keyed.put_of_new]
  exact fun known => apart _ known _ (List.mem_singleton_self _) rfl

/-- A summary has the number of items of each kind that occurs, under the plural of the kind, and
the number of all items as the total. -/
def Summarizes (items : List Item) (summary : Json) : Prop :=
  ∃ entries, summary = .object entries ∧ (entries.map Prod.fst).Nodup ∧
    ∀ key value, (key, value) ∈ entries ↔
      (∃ item ∈ items, key = plural item.kind ∧
        value = .int (items.countP fun other => other.kind == item.kind)) ∨
      key = "total" ∧ value = .int items.length

theorem summarizes_summarize {items : List Item} (known : ∀ item ∈ items, item.kind ∈ kinds) :
    Summarizes items (summarize (items.map Item.kind)) := by
  have ofKinds := List.forall_mem_map.mpr known
  refine ⟨_, summarize_eq ofKinds, nodup_keys_counts ofKinds, fun key value => ?_⟩
  simp only [List.mem_append, mem_counts, List.mem_map, exists_exists_and_eq_and,
    List.mem_singleton, Prod.mk.injEq, List.length_map, List.countP_map, Function.comp_def]

end Item

namespace FileAnalysis

/-- The analysis of a file that was parsed, or of one that cannot be. -/
def ofParsed (file : String) (parsed : Except String Node) : FileAnalysis :=
  ⟨file, parsed.map Item.catalogue⟩

/-- The analysis of a file is that of the tree to which it was parsed. -/
theorem ofFile_returns {file : File} {tree : FileTree} {journal after : Journal Session}
    {analysis : FileAnalysis} (ran : ofFile file tree journal = (.ok analysis, after)) :
    ∃ parsed between, Session.parse file.path tree journal = (.ok parsed, between) ∧
      analysis = ofParsed file.name
        ((parsed.mapError SourceFault.message).map SourceModule.root) := by
  obtain ⟨parsed, between, read, finished⟩ := Task.exists_of_bind_eq_ok ran
  refine ⟨parsed, between, read, ?_⟩
  cases parsed with
  | ok source =>
    cases finished
    rfl
  | error fault =>
    obtain ⟨_, _, -, answered⟩ := Task.exists_of_bind_eq_ok finished
    cases answered
    rfl

/-- The items of a file. -/
def listed (analysis : FileAnalysis) : List Item := analysis.items.toOption.getD []

/-- The analysis of a file has the items of the tree to which it was parsed. -/
inductive Exact : String × Except String Node → FileAnalysis → Prop where
  | unreadable {file reason : String} : Exact (file, .error reason) ⟨file, .error reason⟩
  | parsed {file : String} {root : Node} {items : List Item} (catalogues : root.Catalogues items) :
      Exact (file, .ok root) ⟨file, .ok items⟩

theorem exact_ofParsed : ∀ source : String × Except String Node,
    Exact source (ofParsed source.1 source.2)
  | (_, .error _) => .unreadable
  | (_, .ok root) => .parsed root.catalogues_catalogue

theorem kinds_eq (analysis : FileAnalysis) : analysis.kinds = analysis.listed.map Item.kind := by
  unfold kinds listed
  cases analysis.items <;> rfl

/-- The analyses of files have the items of the trees to which these were parsed: one for each place
where a declaration stands, in the order of the lines that are reported, and on one line in the
order of a walk.  The summary has the numbers of items of all files. -/
theorem declarations_catalogued (sources : List (String × Except String Node)) :
    Listwise Exact sources (sources.map fun source => ofParsed source.1 source.2) ∧
    Item.Summarizes ((sources.map fun source => ofParsed source.1 source.2).flatMap listed)
      (Item.summarize ((sources.map fun source => ofParsed source.1 source.2).flatMap kinds)) ∧
    ∀ file tree journal analysis after,
      ofFile file tree journal = (.ok analysis, after) →
        ∃ parsed between, Session.parse file.path tree journal = (.ok parsed, between) ∧
          analysis = ofParsed file.name
            ((parsed.mapError SourceFault.message).map SourceModule.root) := by
  have same : Listwise (fun source other => other = source) sources sources :=
    .refl fun _ _ => rfl
  refine ⟨same.map_right fun source _ equal => equal ▸ exact_ofParsed source, ?_,
    fun _ _ _ _ _ => ofFile_returns⟩
  have ofKinds : ∀ analyses : List FileAnalysis,
      analyses.flatMap kinds = (analyses.flatMap listed).map Item.kind := fun analyses => by
    rw [List.map_flatMap]
    exact congrArg (analyses.flatMap ·) (funext kinds_eq)
  rw [ofKinds]
  refine Item.summarizes_summarize fun item member => ?_
  obtain ⟨analysis, analysed, inside⟩ := List.mem_flatMap.mp member
  obtain ⟨⟨file, parsed⟩, -, rfl⟩ := List.mem_map.mp analysed
  cases parsed with
  | error reason => cases inside
  | ok root => exact Item.kind_mem_kinds inside

/-! ### Declarations in declarations -/

/-- The name of a declaration. -/
def nameAt (line : Nat) (name : String) : Node :=
  .mk "identifier" true (some "name") 0 line name []

/-- An exported class, with a function in its method, and an interface behind it. -/
def exportedBox : Node :=
  .mk "program" true none 0 1
      ("export\nclass Box \x7b open() \x7b function lift() \x7b\x7d \x7d \x7d" ++
        " interface Lid \x7b\x7d") [
    .mk "export_statement" true none 0 1
        "export\nclass Box \x7b open() \x7b function lift() \x7b\x7d \x7d \x7d" [
      .mk "class_declaration" true (some "declaration") 7 2
          "class Box \x7b open() \x7b function lift() \x7b\x7d \x7d \x7d" [
        nameAt 2 "Box",
        .mk "class_body" true (some "body") 17 2
            "\x7b open() \x7b function lift() \x7b\x7d \x7d \x7d" [
          .mk "method_definition" true none 19 2 "open() \x7b function lift() \x7b\x7d \x7d" [
            nameAt 2 "open",
            .mk "statement_block" true (some "body") 26 2 "\x7b function lift() \x7b\x7d \x7d" [
              .mk "function_declaration" true none 28 2 "function lift() \x7b\x7d" [
                nameAt 2 "lift"]]]]]],
    .mk "interface_declaration" true none 51 2 "interface Lid \x7b\x7d" [nameAt 2 "Lid"]]

/-- The class is reported where its export begins, and what stands in it follows.  A file that
cannot be read adds nothing to the numbers. -/
theorem exportedBox_catalogued :
    exportedBox.Catalogues (Item.catalogue exportedBox) ∧
      (Item.catalogue exportedBox).map (fun item => (item.kind, item.name, item.line)) =
        [("class", "Box", 1), ("method", "open", 2), ("function", "lift", 2),
          ("interface", "Lid", 2)] ∧
      ∃ entries, Item.summarize ((Item.catalogue exportedBox).map Item.kind) = .object entries ∧
        ("classes", .int 1) ∈ entries ∧ ("total", .int 4) ∈ entries := by
  obtain ⟨exact, ⟨entries, written, -, known⟩, -⟩ :=
    declarations_catalogued [("box.ts", .ok exportedBox), ("lid.ts", .error "not found")]
  have found : (Item.catalogue exportedBox).map (fun item => (item.kind, item.name, item.line)) =
      [("class", "Box", 1), ("method", "open", 2), ("function", "lift", 2),
        ("interface", "Lid", 2)] := by
    rw [Item.catalogue, List.mergeSort_of_pairwise (by decide)]
    decide
  have ofKinds : (Item.catalogue exportedBox).map Item.kind =
      ["class", "method", "function", "interface"] := by
    simpa [Function.comp_def] using congrArg (List.map Prod.fst) found
  obtain ⟨box, member, isClass⟩ : ∃ item ∈ Item.catalogue exportedBox, item.kind = "class" :=
    List.mem_map.mp (ofKinds ▸ List.mem_cons_self)
  have all : (([("box.ts", .ok exportedBox), ("lid.ts", .error "not found")] :
      List (String × Except String Node)).map fun source => ofParsed source.1 source.2).flatMap
        listed = Item.catalogue exportedBox := List.append_nil _
  rw [all] at known
  cases exact with
  | cons head _ =>
    cases head with
    | parsed catalogues =>
      refine ⟨catalogues, found, entries, ?_, ?_, ?_⟩
      · exact (congrArg _ (List.append_nil _).symm).trans written
      · refine (known _ _).mpr (.inl ⟨box, member, by rw [isClass]; rfl, ?_⟩)
        have once := List.countP_map (p := (· == "class")) (f := Item.kind)
          (l := Item.catalogue exportedBox)
        rw [ofKinds] at once
        rw [isClass]
        exact congrArg (fun count : Nat => Json.int count) once
      · refine (known _ _).mpr (.inr ⟨rfl, ?_⟩)
        rw [← List.length_map Item.kind, ofKinds]
        rfl

end FileAnalysis
end ModuleAtlas
