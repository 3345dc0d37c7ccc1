import Mathlib.Data.Prod.Lex
import ModuleAtlas.Proofs.FileTree.Names
import ModuleAtlas.Proofs.Graph.DotReader
import ModuleAtlas.Proofs.Graph.Duality

/-!
# Drawings of graphs

A drawing holds all nodes and edges of a graph, or with a focus only the edges that touch it and
their ends.  Both lists are sorted and repeat nothing.  What is read back from the drawing is what
was drawn, as long as every name in it can be quoted.
-/

namespace ModuleAtlas
namespace Graph

open Dot (Statement)

/-! ## The text of a drawing -/

/-- Replacing quotes one by one escapes the name. -/
theorem replaceChars_quote (name : List Char) {fuel : Nat} (enough : name.length < fuel) :
    Text.replaceChars ['"'] ['\\', '"'] none fuel name = Dot.escaped name := by
  induction name generalizing fuel with
  | nil =>
    obtain ⟨fuel, rfl⟩ := Nat.exists_eq_succ_of_ne_zero (Nat.ne_zero_of_lt enough)
    rfl
  | cons c rest ih =>
    obtain ⟨fuel, rfl⟩ := Nat.exists_eq_succ_of_ne_zero (Nat.ne_zero_of_lt enough)
    have later := ih (Nat.lt_of_succ_lt_succ enough)
    rw [Text.replaceChars]
    · by_cases quote : c = '"'
      · subst quote
        simp [Text.dropStart?, later]
      · have other : '"' ≠ c := fun same => quote same.symm
        simp [Text.dropStart?, other, Dot.escaped_cons quote, later]
    · exact nofun

theorem toList_escapeName (name : String) : (escapeName name).toList = Dot.escaped name.toList := by
  unfold escapeName Text.replaceAll
  rw [String.toList_ofList]
  exact replaceChars_quote name.toList (Nat.lt_succ_self _)

/-- The statements for names and edges between names. -/
def drawing (names : List String) (edges : List (String × String)) : List Statement :=
  names.map .node ++ edges.map fun edge => .edge edge.1 edge.2

variable {names : List String} {edges : List (String × String)} {focus : String}
  {changes : List Change}

theorem isDrawn_of_mem_drawing {statement : Statement} (member : statement ∈ drawing names edges) :
    Dot.IsDrawn statement := by
  rcases List.mem_append.mp member with node | edge
  · obtain ⟨_, _, rfl⟩ := List.mem_map.mp node
    trivial
  · obtain ⟨_, _, rfl⟩ := List.mem_map.mp edge
    trivial

/-- The names of the ends of edges. -/
def namedEdges (edges : List (File × File)) : List (String × String) :=
  edges.map fun edge => (edge.1.name, edge.2.name)

theorem toList_nodeLine (name : String) :
    (nodeLine name).toList = ' ' :: ' ' :: (Statement.node name).line := by
  simp [nodeLine, Statement.line, Dot.quoted, toList_escapeName]

theorem toList_edgeLine (edge : File × File) :
    (edgeLine edge).toList =
      ' ' :: ' ' :: (Statement.edge edge.1.name edge.2.name).line := by
  simp [edgeLine, Statement.line, Dot.quoted, toList_escapeName]

/-- The lines of a drawing after the first one. -/
theorem flatMap_lines (names : List String) (edges : List (File × File)) :
    ("  rankdir=LR;" :: (names.map nodeLine ++ edges.map edgeLine ++ ["\x7d"])).flatMap
        (fun line => "\n".toList ++ line.toList) ++ ['\n'] =
      "\n  rankdir=LR;".toList ++ Dot.body (drawing names (namedEdges edges)) := by
  have newline : "\n".toList = ['\n'] := rfl
  have nodes : (names.map nodeLine).flatMap (fun line => ['\n'] ++ line.toList) =
      (names.map Statement.node).flatMap fun statement =>
        '\n' :: ' ' :: ' ' :: statement.line := by
    simp only [List.flatMap_map, toList_nodeLine, List.singleton_append]
  have edges : (edges.map edgeLine).flatMap (fun line => ['\n'] ++ line.toList) =
      ((namedEdges edges).map fun edge => Statement.edge edge.1 edge.2).flatMap fun statement =>
        '\n' :: ' ' :: ' ' :: statement.line := by
    simp only [List.flatMap_map, toList_edgeLine, List.singleton_append, namedEdges]
  rw [newline, List.flatMap_cons, List.flatMap_append, List.flatMap_append, nodes, edges, Dot.body,
    drawing, List.flatMap_append]
  simp only [List.append_assoc]
  rfl

/-- A graph is drawn as a header and one line for each statement. -/
theorem dot_eq (graph : Graph) (focus : String) :
    graph.dot focus = String.ofList (Dot.header ++ Dot.body
      (drawing (graph.selection focus).1 (namedEdges (graph.selection focus).2))) := by
  apply String.toList_injective
  unfold dot
  generalize graph.selection focus = selected
  obtain ⟨names, edges⟩ := selected
  dsimp only
  let lines := "  rankdir=LR;" :: (names.map nodeLine ++ edges.map edgeLine ++ ["\x7d"])
  calc (Text.join "\n" ("digraph Dependencies \x7b" :: lines) ++ "\n").toList
    _ = "digraph Dependencies \x7b".toList ++
          (lines.flatMap (fun line => "\n".toList ++ line.toList) ++ ['\n']) := by
        rw [String.toList_append, Text.toList_join, List.append_assoc]
        rfl
    _ = "digraph Dependencies \x7b".toList ++
          ("\n  rankdir=LR;".toList ++ Dot.body (drawing names (namedEdges edges))) := by
        rw [flatMap_lines]
    _ = Dot.header ++ Dot.body (drawing names (namedEdges edges)) :=
        (List.append_assoc _ _ _).symm
    _ = _ := String.toList_ofList.symm

/-! ## What is selected -/

/-- A change mentions a file by name and path. -/
def Change.Involves : Change → File → Prop
  | .node file, other => other = file
  | .edge source target, other => other = source ∨ other = target

/-- Files that are mentioned in changes have the same name exactly when they have the same path. -/
def NamedByPaths (changes : List Change) : Prop :=
  ∀ change ∈ changes, ∀ other ∈ changes, ∀ a b, change.Involves a → other.Involves b →
    (a.name = b.name ↔ a.path = b.path)

/-- Some change mentions a file of a name. -/
def MentionsName (changes : List Change) (name : String) : Prop :=
  ∃ change ∈ changes, ∃ file, change.Involves file ∧ file.name = name

/-- Some change draws an edge between files of two names. -/
def DrawsNames (changes : List Change) (edge : String × String) : Prop :=
  ∃ source target, .edge source target ∈ changes ∧ (source.name, target.name) = edge

/-- A text occurs in the name of an end of an edge. -/
def Touches (focus : String) (edge : String × String) : Prop :=
  focus.toList <:+: edge.1.toList ∨ focus.toList <:+: edge.2.toList

/-- A focus is not empty and touches an edge. -/
def Narrows (changes : List Change) (focus : String) : Prop :=
  focus ≠ "" ∧ ∃ edge, DrawsNames changes edge ∧ Touches focus edge

/-- Names and edges between names, in order and without repetition, are those that a focus selects
from a graph that changes build. -/
structure IsSelected (changes : List Change) (focus : String) (names : List String)
    (edges : List (String × String)) : Prop where
  namesSorted : names.Pairwise (· < ·)
  edgesSorted : edges.Pairwise (Prod.Lex (· < ·) (· < ·))
  narrowed : Narrows changes focus →
    (∀ edge, edge ∈ edges ↔ DrawsNames changes edge ∧ Touches focus edge) ∧
    ∀ name, name ∈ names ↔ ∃ edge ∈ edges, name = edge.1 ∨ name = edge.2
  whole : ¬Narrows changes focus →
    (∀ edge, edge ∈ edges ↔ DrawsNames changes edge) ∧
    ∀ name, name ∈ names ↔ MentionsName changes name

theorem containsChars_iff {part text : List Char} :
    Text.containsChars part text = true ↔ part <:+: text := by
  induction text with
  | nil => simp [Text.containsChars]
  | cons c rest ih =>
    rw [Text.containsChars, Bool.or_eq_true, ih, List.isPrefixOf_iff_prefix, List.infix_cons_iff]

/-! ### Files of a graph -/

theorem Change.Involves.mentions {change : Change} {file : File} (involved : change.Involves file) :
    change.Mentions file.path := by
  cases change with
  | node other => exact congrArg File.path involved
  | edge source target =>
    exact involved.imp (congrArg File.path) (congrArg File.path)

/-- All files of a graph are mentioned in the changes that build it. -/
theorem all_after {property : File → Prop} {graph : Graph} (all : graph.All property)
    (holds : ∀ change ∈ changes, ∀ file, change.Involves file → property file) :
    (graph.after changes).All property := by
  unfold after
  induction changes generalizing graph with
  | nil => exact all
  | cons change rest ih =>
    have here := holds change List.mem_cons_self
    refine ih ?_ fun other member => holds other (List.mem_cons_of_mem _ member)
    cases change with
    | node file => exact all.addNode (here file rfl)
    | edge source target =>
      exact all.addEdge (here source (.inl rfl)) (here target (.inr rfl))

/-- Some change mentions a file by name and path. -/
def Involved (changes : List Change) (file : File) : Prop :=
  ∃ change ∈ changes, change.Involves file

theorem all_built (changes : List Change) : (built changes).All (Involved changes) :=
  all_after (all_empty _) fun change member _ involved => ⟨change, member, involved⟩

theorem NamedByPaths.name_eq_iff (named : NamedByPaths changes)
    {a b : File} (first : Involved changes a) (second : Involved changes b) :
    a.name = b.name ↔ a.path = b.path := by
  obtain ⟨change, member, involved⟩ := first
  obtain ⟨other, otherMember, otherInvolved⟩ := second
  exact named change member other otherMember a b involved otherInvolved

section

variable {changes : List Change}

theorem involved_of_mem_nodes {file : File} (member : file ∈ (built changes).nodes) :
    Involved changes file := by
  obtain ⟨entry, entryMember, rfl⟩ := List.mem_map.mp ((File.sort_perm _).mem_iff.mp member)
  exact (all_built changes entry entryMember).1

theorem involved_of_mem_targets {file target : File}
    (member : target ∈ (built changes).targets file) :
    Involved changes target :=
  (all_built changes).of_mem_targets member

theorem involved_of_mem_edges {edge : File × File} (member : edge ∈ (built changes).edges) :
    Involved changes edge.1 ∧ Involved changes edge.2 := by
  obtain ⟨source, sourceMember, inner⟩ := List.mem_flatMap.mp member
  obtain ⟨target, targetMember, rfl⟩ := List.mem_map.mp inner
  exact ⟨involved_of_mem_nodes sourceMember,
    involved_of_mem_targets ((File.sort_perm _).mem_iff.mp targetMember)⟩

variable (named : NamedByPaths changes)

include named

/-- Nodes have the names that the changes mention, and no others. -/
theorem NamedByPaths.mem_names_nodes {name : String} :
    name ∈ (built changes).nodes.map (·.name) ↔ MentionsName changes name := by
  rw [List.mem_map]
  constructor
  · rintro ⟨file, member, rfl⟩
    obtain ⟨change, changeMember, involved⟩ := involved_of_mem_nodes member
    exact ⟨change, changeMember, file, involved, rfl⟩
  · rintro ⟨change, changeMember, file, involved, rfl⟩
    have node := mem_paths_nodes.mpr (hasNode_built.mpr ⟨change, changeMember, involved.mentions⟩)
    obtain ⟨other, member, same⟩ := File.mem_paths.mp node
    have otherInvolved := involved_of_mem_nodes member
    exact ⟨other, member,
      (named.name_eq_iff otherInvolved ⟨change, changeMember, involved⟩).mpr same⟩

/-- Edges have the names between which the changes draw one, and no others. -/
theorem NamedByPaths.mem_namedEdges {edge : String × String} :
    edge ∈ namedEdges (built changes).edges ↔ DrawsNames changes edge := by
  have distinct := distinct_built changes
  unfold namedEdges
  rw [List.mem_map]
  constructor
  · rintro ⟨⟨a, b⟩, member, rfl⟩
    obtain ⟨first, second⟩ := involved_of_mem_edges member
    have drawn : (a.path, b.path) ∈ ends (built changes).edges := List.mem_map_of_mem member
    rw [mem_ends_edges distinct, hasEdge_built] at drawn
    obtain ⟨change, changeMember, draws⟩ := drawn
    cases change with
    | node file => cases draws
    | edge source target =>
      have sourceName := (named.name_eq_iff first ⟨_, changeMember, .inl rfl⟩).mpr draws.1
      have targetName := (named.name_eq_iff second ⟨_, changeMember, .inr rfl⟩).mpr draws.2
      exact ⟨source, target, changeMember, Prod.ext sourceName.symm targetName.symm⟩
  · rintro ⟨source, target, changeMember, rfl⟩
    have drawn : (source.path, target.path) ∈ ends (built changes).edges := by
      rw [mem_ends_edges distinct, hasEdge_built]
      exact ⟨_, changeMember, rfl, rfl⟩
    obtain ⟨⟨a, b⟩, member, same⟩ := List.mem_map.mp drawn
    obtain ⟨sourcePath, targetPath⟩ := Prod.mk.inj same
    obtain ⟨first, second⟩ := involved_of_mem_edges member
    have sourceName := (named.name_eq_iff first ⟨_, changeMember, .inl rfl⟩).mpr sourcePath
    have targetName := (named.name_eq_iff second ⟨_, changeMember, .inr rfl⟩).mpr targetPath
    exact ⟨(a, b), member, Prod.ext sourceName targetName⟩

/-- Files that are each there once are in strict order when they are sorted by name. -/
theorem NamedByPaths.pairwise_sort {files : List File}
    (involved : ∀ file ∈ files, Involved changes file) (nodup : (File.paths files).Nodup) :
    (File.sort files).Pairwise fun a b => a.name < b.name := by
  have apart : (File.sort files).Pairwise fun a b => a.path ≠ b.path :=
    List.pairwise_map.mp ((File.paths_sort_perm files).nodup_iff.mpr nodup)
  have both := (File.pairwise_sort files).and apart
  refine both.imp_of_mem fun {a b} first second ordered => ?_
  have firstInvolved := involved a ((File.sort_perm files).mem_iff.mp first)
  have secondInvolved := involved b ((File.sort_perm files).mem_iff.mp second)
  rw [← String.not_le]
  intro above
  have same := String.le_antisymm ordered.1 above
  exact ordered.2 ((named.name_eq_iff firstInvolved secondInvolved).mp same)

theorem NamedByPaths.pairwise_nodes :
    (built changes).nodes.Pairwise fun a b => a.name < b.name := by
  refine named.pairwise_sort (fun file member => ?_) (distinct_built changes).nodes
  exact involved_of_mem_nodes ((File.sort_perm _).mem_iff.mpr member)

/-- Edges are listed by the names of their ends, and none of them twice. -/
theorem NamedByPaths.pairwise_edges :
    (built changes).edges.Pairwise fun a b =>
      Prod.Lex (· < ·) (· < ·) (a.1.name, a.2.name) (b.1.name, b.2.name) := by
  unfold edges
  rw [List.pairwise_flatMap]
  constructor
  · intro source _
    rw [List.pairwise_map]
    have ordered : (File.sort ((built changes).targets source)).Pairwise
        fun a b => a.name < b.name :=
      named.pairwise_sort (fun _ member => involved_of_mem_targets member)
        ((distinct_built changes).nodup_paths_targets source)
    refine ordered.imp fun {a b} below => ?_
    exact Prod.Lex.right source.name below
  · refine named.pairwise_nodes.imp fun {a b} below => ?_
    intro edge member other otherMember
    obtain ⟨_, _, rfl⟩ := List.mem_map.mp member
    obtain ⟨_, _, rfl⟩ := List.mem_map.mp otherMember
    exact Prod.Lex.left _ _ below

end

/-! ## Reading a drawing back -/

/-- A focus keeps the edges that it is an end of. -/
theorem mem_touching (focus : String) (edges : List (File × File)) :
    ∀ edge, edge ∈ namedEdges (touching focus edges) ↔
      edge ∈ namedEdges edges ∧ Touches focus edge := by
  have touches : ∀ edge : File × File,
      (Text.contains focus edge.1.name || Text.contains focus edge.2.name) = true ↔
        Touches focus (edge.1.name, edge.2.name) := by
    intro edge
    rw [Bool.or_eq_true]
    exact or_congr containsChars_iff containsChars_iff
  intro edge
  unfold namedEdges touching
  simp only [List.mem_map, List.mem_filter, touches]
  constructor
  · rintro ⟨found, ⟨member, touched⟩, rfl⟩
    exact ⟨⟨found, member, rfl⟩, touched⟩
  · rintro ⟨⟨found, member, rfl⟩, touched⟩
    exact ⟨found, ⟨member, touched⟩, rfl⟩

theorem focused_nonempty_iff (named : NamedByPaths changes)
    (given : focus ≠ "") : touching focus (built changes).edges ≠ [] ↔ Narrows changes focus := by
  have empty : touching focus (built changes).edges = [] ↔
      ∀ edge, edge ∉ namedEdges (touching focus (built changes).edges) := by
    rw [← List.eq_nil_iff_forall_not_mem, namedEdges, List.map_eq_nil_iff]
  rw [ne_eq, empty, Narrows]
  simp only [mem_touching, named.mem_namedEdges, not_forall, not_not, ne_eq, given,
    not_false_eq_true, true_and]

/-- What is drawn is what is selected. -/
theorem isSelected_selection (named : NamedByPaths changes)
    (focus : String) :
    IsSelected changes focus ((built changes).selection focus).1
      (namedEdges ((built changes).selection focus).2) := by
  have nodesSorted : ((built changes).nodes.map (·.name)).Pairwise (· < ·) :=
    List.pairwise_map.mpr named.pairwise_nodes
  have edgesSorted := named.pairwise_edges
  by_cases narrows : Narrows changes focus
  · have nonempty := (focused_nonempty_iff named narrows.1).mpr narrows
    have selected : (built changes).selection focus =
        (Text.sortedSet ((touching focus (built changes).edges).flatMap
          fun edge => [edge.1.name, edge.2.name]), touching focus (built changes).edges) := by
      simp [selection, narrows.1, nonempty]
    rw [selected]
    refine ⟨Text.pairwise_sortedSet _,
      List.pairwise_map.mpr (edgesSorted.sublist List.filter_sublist), fun _ => ⟨?_, ?_⟩,
      fun other => absurd narrows other⟩
    · intro edge
      rw [mem_touching, named.mem_namedEdges]
    · intro name
      simp [Text.mem_sortedSet, namedEdges]
  · have selected : (built changes).selection focus =
        ((built changes).nodes.map (·.name), (built changes).edges) := by
      by_cases given : focus = ""
      · simp [selection, given]
      · have empty := not_not.mp (mt (focused_nonempty_iff named given).mp narrows)
        simp [selection, empty]
    rw [selected]
    exact ⟨nodesSorted, List.pairwise_map.mpr edgesSorted, fun other => absurd other narrows,
      fun _ => ⟨fun _ => named.mem_namedEdges, fun _ => named.mem_names_nodes⟩⟩

/-- The ends of the edges that are selected are among the names. -/
theorem IsSelected.ends (selected : IsSelected changes focus names edges)
    {edge : String × String} (member : edge ∈ edges) : edge.1 ∈ names ∧ edge.2 ∈ names := by
  by_cases narrows : Narrows changes focus
  · have found := (selected.narrowed narrows).2
    exact ⟨(found _).mpr ⟨edge, member, .inl rfl⟩, (found _).mpr ⟨edge, member, .inr rfl⟩⟩
  · obtain ⟨drawn, mentioned⟩ := selected.whole narrows
    obtain ⟨source, target, changeMember, rfl⟩ := (drawn edge).mp member
    exact ⟨(mentioned _).mpr ⟨_, changeMember, source, .inl rfl, rfl⟩,
      (mentioned _).mpr ⟨_, changeMember, target, .inr rfl, rfl⟩⟩

/-- All names that are selected are mentioned. -/
theorem IsSelected.mentioned
    (selected : IsSelected changes focus names edges) {name : String} (member : name ∈ names) :
    MentionsName changes name := by
  by_cases narrows : Narrows changes focus
  · obtain ⟨drawn, found⟩ := selected.narrowed narrows
    obtain ⟨edge, edgeMember, same⟩ := (found name).mp member
    obtain ⟨⟨source, target, changeMember, rfl⟩, _⟩ := (drawn edge).mp edgeMember
    rcases same with rfl | rfl
    · exact ⟨_, changeMember, source, .inl rfl, rfl⟩
    · exact ⟨_, changeMember, target, .inr rfl, rfl⟩
  · exact ((selected.whole narrows).2 name).mp member

/-- The drawing holds no names but those of the nodes that are selected. -/
theorem names_quotable_iff
    (selected : IsSelected changes focus names edges) :
    (∀ statement ∈ drawing names edges, ∀ name ∈ statement.names, Dot.IsQuotable name) ↔
      ∀ name ∈ names, Dot.IsQuotable name := by
  constructor
  · intro quotable name member
    refine quotable (.node name) (List.mem_append_left _ (List.mem_map_of_mem member)) name ?_
    exact List.mem_singleton_self _
  · intro quotable statement member name nameMember
    rcases List.mem_append.mp member with node | edge
    · obtain ⟨other, otherMember, rfl⟩ := List.mem_map.mp node
      cases List.mem_singleton.mp nameMember
      exact quotable _ otherMember
    · obtain ⟨edge, edgeMember, rfl⟩ := List.mem_map.mp edge
      obtain ⟨source, target⟩ := selected.ends edgeMember
      simp only [Statement.names, List.mem_cons, List.not_mem_nil, or_false] at nameMember
      rcases nameMember with rfl | rfl
      · exact quotable _ source
      · exact quotable _ target

/-- A drawing holds what is selected, and a reader of it finds exactly that if and only if the
backslashes of each name that is drawn come in pairs wherever a double quote or the end of the name
follows them. -/
theorem read_dot_iff {changes : List Change} (named : NamedByPaths changes) (focus : String) :
    ∃ names edges, IsSelected changes focus names edges ∧
      (Dot.read ((built changes).dot focus) = some (Dot.direction :: drawing names edges) ↔
        ∀ name ∈ names, Dot.IsQuotable name) := by
  have selected := isSelected_selection named focus
  refine ⟨_, _, selected, ?_⟩
  rw [dot_eq, Dot.read_eq_some_iff fun _ => isDrawn_of_mem_drawing, names_quotable_iff selected]

/-- Files that are seen from one root at proper paths are told apart by their names. -/
theorem namedByPaths_of_seen (root : Path)
    (seen : ∀ change ∈ changes, ∀ file, change.Involves file →
      file = File.seenFrom root file.path ∧ file.path.IsProper) :
    NamedByPaths changes := by
  intro change member other otherMember a b first second
  have firstSeen := seen change member a first
  have secondSeen := seen other otherMember b second
  constructor
  · intro same
    exact congrArg File.path (File.eq_of_name_eq firstSeen secondSeen same)
  · intro same
    rw [firstSeen.1, secondSeen.1, same]

/-- A file with a pair of backslashes and two quotes in its name. -/
def quotingFile : File := ⟨.ofRoot ["a\\\\\"b\".ts"], "a\\\\\"b\".ts"⟩

/-- A file with a plain name. -/
def plainFile : File := ⟨.ofRoot ["c.ts"], "c.ts"⟩

/-- Two files that import each other. -/
def crossed : List Change := [.edge quotingFile plainFile, .edge plainFile quotingFile]

theorem eq_or_eq_of_involves_crossed {change : Change} (member : change ∈ crossed) {file : File}
    (involved : change.Involves file) :
    file = quotingFile ∨ file = plainFile := by
  simp only [crossed, List.mem_cons, List.not_mem_nil, or_false] at member
  rcases member with rfl | rfl
  · exact involved
  · exact involved.symm

theorem isProper_ofRoot {name : String} (plain : FileTree.IsPlain name)
    (free : Text.IsFreeOf '/' name) :
    (Path.ofRoot [name]).IsProper :=
  ⟨rfl, List.forall_mem_singleton.mpr plain, List.forall_mem_singleton.mpr free⟩

theorem namedByPaths_crossed : NamedByPaths crossed := by
  refine namedByPaths_of_seen (.ofRoot []) fun change member file involved => ?_
  rcases eq_or_eq_of_involves_crossed member involved with rfl | rfl
  · have plain : FileTree.IsPlain "a\\\\\"b\".ts" := ⟨by decide, by decide⟩
    exact ⟨by decide +kernel, isProper_ofRoot plain (by simp [Text.IsFreeOf])⟩
  · have plain : FileTree.IsPlain "c.ts" := ⟨by decide, by decide⟩
    exact ⟨by decide +kernel, isProper_ofRoot plain (by simp [Text.IsFreeOf])⟩

theorem read_dot_crossed :
    NamedByPaths crossed ∧
      ∃ names edges, IsSelected crossed "b" names edges ∧
        Dot.read ((built crossed).dot "b") = some (Dot.direction :: drawing names edges) := by
  obtain ⟨names, edges, selected, read⟩ := read_dot_iff namedByPaths_crossed "b"
  refine ⟨namedByPaths_crossed, names, edges, selected, read.mpr fun name member => ?_⟩
  obtain ⟨change, changeMember, file, involved, rfl⟩ := selected.mentioned member
  rw [Dot.isQuotable_iff]
  rcases eq_or_eq_of_involves_crossed changeMember involved with rfl | rfl
  · decide +kernel
  · decide +kernel

/-- A file whose name ends with a backslash. -/
def slashed : List Change := [.node ⟨.ofRoot ["a\\"], "a\\"⟩]

/-- The quote that is to end the name is read as part of it, and with it the rest of the text. -/
theorem read_dot_slashed :
    IsSelected slashed "" ["a\\"] [] ∧ Dot.read ((built slashed).dot "") = none := by
  refine ⟨?_, by decide +kernel⟩
  have named : NamedByPaths slashed := by
    simp [NamedByPaths, slashed, Change.Involves]
  have selected := isSelected_selection named ""
  have found : (built slashed).selection "" = (["a\\"], []) := by decide +kernel
  rwa [found] at selected

end Graph
end ModuleAtlas
