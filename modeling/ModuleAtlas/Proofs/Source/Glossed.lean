import ModuleAtlas.Proofs.Source.Comments
import ModuleAtlas.Proofs.Source.Index
import ModuleAtlas.Proofs.Types.Spelling

/-!
# Comments in the margin

A comment is a child like any other that is more than a token.  Where children are told apart by
their kinds or by their roles, nothing is made of it; where the first or the last child counts, a
comment must not stand there; and where every child counts, each comment counts as well.  A glossed
copy of a tree has comments in such places only that go unnoticed.  All nodes of the tree stand in
it, moved on in their file; what they cover changes only where nothing reads it.
-/

namespace ModuleAtlas

/-! ## Lists with comments in between -/

/-- Lists with related elements in the same order, the second one with comments in between. -/
inductive Interleaved (relation : Node → Node → Prop) : List Node → List Node → Prop where
  | nil : Interleaved relation [] []
  | cons {node copy : Node} {nodes copies : List Node}
      (head : relation node copy) (tail : Interleaved relation nodes copies) :
      Interleaved relation (node :: nodes) (copy :: copies)
  | insert {nodes copies : List Node} (start line : Nat) (text : String)
      (tail : Interleaved relation nodes copies) :
      Interleaved relation nodes (Node.comment start line text :: copies)

namespace Interleaved

open Node

variable {relation wider : Node → Node → Prop} {nodes copies : List Node} {test : Node → Bool}

variable (interleaved : Interleaved relation nodes copies)

include interleaved

theorem mono (implied : ∀ node ∈ nodes, ∀ copy, relation node copy → wider node copy) :
    Interleaved wider nodes copies := by
  induction interleaved with
  | nil => exact .nil
  | cons head _ ih =>
    exact .cons (implied _ List.mem_cons_self _ head)
      (ih fun _ member => implied _ (List.mem_cons_of_mem _ member))
  | insert start line text _ ih =>
    exact .insert start line text (ih implied)

theorem length_le :
    nodes.length ≤ copies.length := by
  induction interleaved with
  | nil => exact Nat.le_refl _
  | cons _ _ ih => exact Nat.succ_le_succ ih
  | insert _ _ _ _ ih => exact Nat.le_succ_of_le ih

/-- Lists of the same length have no comments in between. -/
theorem listwise (same : copies.length = nodes.length) :
    Listwise relation nodes copies := by
  induction interleaved with
  | nil => exact .nil
  | cons head _ ih => exact .cons head (ih (Nat.succ.inj same))
  | insert _ _ _ tail _ =>
    have shorter := tail.length_le
    rw [List.length_cons] at same
    omega

/-- A test that comments fail chooses the same elements. -/
theorem filter (respects : ∀ node copy, relation node copy → test node = test copy)
    (passesOver : ∀ start line text, test (comment start line text) = false) :
    Listwise relation (nodes.filter test) (copies.filter test) := by
  induction interleaved with
  | nil => exact .nil
  | cons head _ ih =>
    rw [List.filter_cons, List.filter_cons, respects _ _ head]
    split
    · exact .cons head ih
    · exact ih
  | insert start line text _ ih =>
    rw [List.filter_cons, passesOver]
    exact ih

/-- A test that comments pass chooses the same elements and the comments. -/
theorem filter_keeping (respects : ∀ node copy, relation node copy → test node = test copy)
    (keeps : ∀ start line text, test (comment start line text) = true) :
    Interleaved relation (nodes.filter test) (copies.filter test) := by
  induction interleaved with
  | nil => exact .nil
  | cons head _ ih =>
    rw [List.filter_cons, List.filter_cons, respects _ _ head]
    split
    · exact .cons head ih
    · exact ih
  | insert start line text _ ih =>
    rw [List.filter_cons, keeps]
    exact .insert start line text ih

theorem find? (respects : ∀ node copy, relation node copy → test node = test copy)
    (passesOver : ∀ start line text, test (comment start line text) = false) :
    Option.Rel relation (nodes.find? test) (copies.find? test) := by
  rw [← List.head?_filter, ← List.head?_filter]
  exact (interleaved.filter respects passesOver).head?

theorem any_eq (respects : ∀ node copy, relation node copy → test node = test copy)
    (passesOver : ∀ start line text, test (comment start line text) = false) :
    nodes.any test = copies.any test := by
  rw [List.any_eq_not_all_not, List.any_eq_not_all_not]
  induction interleaved with
  | nil => rfl
  | cons head _ ih =>
    rw [Bool.not_inj_iff] at ih ⊢
    rw [List.all_cons, List.all_cons, respects _ _ head, ih]
  | insert start line text _ ih =>
    rw [Bool.not_inj_iff] at ih ⊢
    rw [List.all_cons, passesOver, ih, Bool.not_false, Bool.true_and]

theorem filterMap_eq {α : Type} {image : Node → Option α}
    (equal : ∀ node copy, relation node copy → image node = image copy)
    (passesOver : ∀ start line text, image (comment start line text) = none) :
    nodes.filterMap image = copies.filterMap image := by
  induction interleaved with
  | nil => rfl
  | cons head _ ih =>
    rw [List.filterMap_cons, List.filterMap_cons, equal _ _ head, ih]
  | insert start line text _ ih =>
    rw [List.filterMap_cons, passesOver, ih]

theorem flatMap_eq {α : Type} {image : Node → List α}
    (equal : ∀ node copy, relation node copy → image node = image copy)
    (passesOver : ∀ start line text, image (comment start line text) = []) :
    nodes.flatMap image = copies.flatMap image := by
  induction interleaved with
  | nil => rfl
  | cons head _ ih =>
    rw [List.flatMap_cons, List.flatMap_cons, equal _ _ head, ih]
  | insert start line text _ ih =>
    rw [List.flatMap_cons, passesOver, ih, List.nil_append]

theorem append {more moreCopies : List Node} (others : Interleaved relation more moreCopies) :
    Interleaved relation (nodes ++ more) (copies ++ moreCopies) := by
  induction interleaved with
  | nil => exact others
  | cons head _ ih => exact .cons head ih
  | insert start line text _ ih =>
    exact .insert start line text ih

theorem reverse :
    Interleaved relation nodes.reverse copies.reverse := by
  induction interleaved with
  | nil => exact .nil
  | cons head _ ih =>
    rw [List.reverse_cons, List.reverse_cons]
    exact ih.append (.cons head .nil)
  | insert start line text _ ih =>
    rw [List.reverse_cons, ← List.append_nil (List.reverse _)]
    exact ih.append (.insert start line text .nil)

/-- Where no comment stands in front, the first elements are related. -/
theorem head? (noComment : ∀ first, copies.head? = some first → first.kind ≠ commentKind) :
    Option.Rel relation nodes.head? copies.head? := by
  cases interleaved with
  | nil => exact .none
  | cons head _ => exact .some head
  | insert start line text _ => exact absurd rfl (noComment _ rfl)

/-- Where no comment stands at the end, the last elements are related. -/
theorem getLast? (noComment : ∀ last, copies.getLast? = some last → last.kind ≠ commentKind) :
    Option.Rel relation nodes.getLast? copies.getLast? := by
  rw [List.getLast?_eq_head?_reverse, List.getLast?_eq_head?_reverse]
  refine interleaved.reverse.head? fun last found => noComment last ?_
  rw [List.getLast?_eq_head?_reverse, found]

end Interleaved

namespace Node

/-! ## Where comments go unnoticed -/

/-- Where among the children of a node comments go unnoticed. -/
inductive Margin where
  | anywhere
  | beforeLast
  | afterFirst
  | between
  | nowhere
deriving DecidableEq

/-- Whether no comment among some nodes stands where it would be noticed. -/
def Margin.Allows : Margin → List Node → Prop
  | .anywhere, _ => True
  | .beforeLast, nodes => ∀ last, nodes.getLast? = some last → last.kind ≠ commentKind
  | .afterFirst, nodes => ∀ first, nodes.head? = some first → first.kind ≠ commentKind
  | .between, nodes =>
    (∀ first, nodes.head? = some first → first.kind ≠ commentKind) ∧
      ∀ last, nodes.getLast? = some last → last.kind ≠ commentKind
  | .nowhere, _ => False

/-- The kinds of nodes of which every child counts. -/
def countingKinds : List String :=
  ["type_arguments", "union_type", "intersection_type", "tuple_type", "array",
    "extends_type_clause"]

/-- The kinds of nodes of which the last child counts. -/
def lastKinds : List String := Types.wrapperKinds ++ ["optional_type", "rest_type", "rest_pattern"]

/-- The kinds of nodes of which the first child counts. -/
def firstKinds : List String :=
  ["return_statement", "array_type", "satisfies_expression", "parenthesized_expression",
    "non_null_expression", "namespace_import", "import_require_clause", "namespace_export"]

/-- Where comments go unnoticed among the children of a node. -/
def margin (context : String) : Margin :=
  if countingKinds.contains context then .nowhere
  else if lastKinds.contains context then .beforeLast
  else if firstKinds.contains context then .afterFirst
  else if context == "as_expression" then .between
  else .anywhere

/-- The comments that a list of children has more than another go unnoticed. -/
def Unnoticed (context : String) (children copies : List Node) : Prop :=
  copies.length = children.length ∨
    children ≠ [] ∧ (margin context).Allows (copies.filter named)

/-! ## What nothing reads -/

/-- The kinds of types whose text is never read, as it is put together from their parts. -/
def composedKinds : List String :=
  Types.wrapperKinds ++
    ["generic_type", "tuple_type", "union_type", "intersection_type", "function_type"]

/-- The kinds of nodes that read the names that their children are. -/
def nameContexts : List String :=
  ["rest_pattern", "namespace_import", "import_require_clause", "namespace_export"]

/-- The kinds of nodes that read the texts of their children. -/
def readingKinds : List String := "type_arguments" :: nameContexts

/-- The roles of nodes whose texts are names. -/
def nameRoles : List String :=
  ["name", "left", "key", "alias", "operator", "kind", "parameter", "index_type", "pattern"]

/-- The kinds of nodes whose children stand for types. -/
def typeContexts : List String :=
  lastKinds ++ ["type_arguments", "union_type", "intersection_type", "tuple_type", "array_type",
    "extends_type_clause", "as_expression"]

/-- Whether a node stands for a type. -/
def isTypePlace (context : String) (role : Option String) : Bool :=
  typeContexts.contains context || role == some "type" || role == some "return_type"
    || (role == some "value"
      && (context == "type_alias_declaration" || context == "type_parameter"))

/-- The kinds of nodes whose texts are those of values, or names that are no types of their own. -/
def valueKinds : List String :=
  ["identifier", "member_expression", "nested_type_identifier", "property_identifier",
    "shorthand_property_identifier", "shorthand_property_identifier_pattern", "string", "number",
    "unary_expression", "accessibility_modifier"]

/-- The kinds of those that are read wherever they stand. -/
def wordKinds : List String :=
  ["shorthand_property_identifier", "shorthand_property_identifier_pattern",
    "accessibility_modifier"]

/-- The kinds of nodes that read what their children are. -/
def valueContexts : List String :=
  typeContexts ++ nameContexts ++ ["return_statement", "array", "satisfies_expression",
    "parenthesized_expression", "non_null_expression", "import_clause", "enum_body",
    "type_alias_declaration", "type_parameter"]

/-- What a node is for its children: a list of type arguments, if that is its role, or else what it
is anyway.  The body of an enumeration may be of any kind. -/
def context (kind : String) (role : Option String) : String :=
  if role == some "type_arguments" then "type_arguments"
  else if role == some "body" && !valueContexts.contains kind then "enum_body"
  else kind

/-- The roles of nodes that are read as values. -/
def valueRoles : List String := ["value", "right", "body", "constructor", "source"]

/-- Whether a node stands for a value that is read. -/
def isValuePlace (context : String) (role : Option String) : Bool :=
  valueContexts.contains context || valueRoles.contains (role.getD "")

/-- Whether nothing reads the text of a node. -/
def isUnread (context : String) (role : Option String) (kind : String) : Bool :=
  !readingKinds.contains context && !nameRoles.contains (role.getD "")
    && (composedKinds.contains kind
      || !(isTypePlace context role || wordKinds.contains kind
        || valueKinds.contains kind && isValuePlace context role))

/-! ## Glossed copies -/

mutual

/-- A tree and a copy of it with comments that go unnoticed. -/
inductive Glossed (move : Nat → Nat) : String → Node → Node → Prop where
  | mk {above kind : String} {named : Bool} {role : Option String} {start line otherLine : Nat}
      {text otherText : String} {children copies : List Node}
      (kept : text = otherText ∨ isUnread above role kind = true)
      (unnoticed : Unnoticed (context kind role) children copies)
      (below : GlossedAll move (context kind role) children copies) :
      Glossed move above (.mk kind named role start line text children)
        (.mk kind named role (move start) otherLine otherText copies)

/-- Trees and copies of them with comments that go unnoticed, and comments in between. -/
inductive GlossedAll (move : Nat → Nat) : String → List Node → List Node → Prop where
  | nil {above : String} : GlossedAll move above [] []
  | cons {above : String} {node copy : Node} {nodes copies : List Node}
      (head : Glossed move above node copy) (tail : GlossedAll move above nodes copies) :
      GlossedAll move above (node :: nodes) (copy :: copies)
  | insert {above : String} {nodes copies : List Node} (start line : Nat) (text : String)
      (tail : GlossedAll move above nodes copies) :
      GlossedAll move above nodes (comment start line text :: copies)

end

/-! ## Revised copies -/

/-- Whether the text of a node is one of a type, or the name of a type parameter. -/
def isTypeText (context : String) (role : Option String) (kind : String) : Bool :=
  !valueKinds.contains kind
    && if role == some "name" then context == "type_parameter"
      else isTypePlace context role && !nameRoles.contains (role.getD "")
        && !nameContexts.contains context

/-- How a tree differs from a copy of it: in the spelling of its types, and in the places of its
nodes. -/
structure Change where
  spelling : Spelling
  places : Nat → Nat → Prop

/-- The text of a node and that of its copy.  Types may be spelled in another way. -/
structure Keeps (spelling : Spelling) (context : String) (role : Option String) (kind : String)
    (text other : String) : Prop where
  spelled : spelling.spelled text other
  inner : kind = "string" → spelling.spelled (Text.inner text) (Text.inner other)
  same : isTypeText context role kind = false → text = other
  names : kind = "type_identifier" → spelling.Names text other
  parameter : role = some "name" → context = "type_parameter" → spelling.nameable text other

/-- Type parameters have names, and neither they nor what is bound to a name are lists of type
arguments. -/
def isUsual (kind : String) (role : Option String) (children : List Node) : Bool :=
  !(role == some "type_arguments" && (nameContexts.contains kind || kind == "type_parameter"))
    && (kind != "type_parameter" || children.any fun child => child.role == some "name")

mutual

/-- A tree and a copy of it with comments that go unnoticed, and with types that may be spelled in
another way. -/
inductive Revised (change : Change) : String → Node → Node → Prop where
  | mk {above kind : String} {named : Bool} {role : Option String}
      {start otherStart line otherLine : Nat} {text otherText : String}
      {children copies : List Node}
      (placed : change.places start otherStart)
      (kept : Keeps change.spelling above role kind text otherText ∨
        isUnread above role kind = true)
      (unnoticed : Unnoticed (context kind role) children copies)
      (usual : isUsual kind role children = true ∨ change.spelling.IsSame)
      (below : RevisedAll change (context kind role) children copies) :
      Revised change above (.mk kind named role start line text children)
        (.mk kind named role otherStart otherLine otherText copies)

/-- Trees and copies of them with comments in between. -/
inductive RevisedAll (change : Change) : String → List Node → List Node → Prop where
  | nil {above : String} : RevisedAll change above [] []
  | cons {above : String} {node copy : Node} {nodes copies : List Node}
      (head : Revised change above node copy) (tail : RevisedAll change above nodes copies) :
      RevisedAll change above (node :: nodes) (copy :: copies)
  | insert {above : String} {nodes copies : List Node} (start line : Nat) (text : String)
      (tail : RevisedAll change above nodes copies) :
      RevisedAll change above nodes (comment start line text :: copies)

end

theorem RevisedAll.interleaved {change : Change} {above : String} :
    ∀ {nodes copies : List Node}, RevisedAll change above nodes copies →
      Interleaved (Revised change above) nodes copies
  | _, _, .nil => .nil
  | _, _, .cons head tail => .cons head tail.interleaved
  | _, _, .insert start line text tail => .insert start line text tail.interleaved

/-- A text that stays as it is. -/
theorem Keeps.refl (context : String) (role : Option String) (kind text : String) :
    Keeps .same context role kind text text :=
  ⟨rfl, fun _ => rfl, fun _ => rfl, fun _ => .inl rfl, fun _ _ => rfl⟩

mutual

/-- A copy with comments is one in which nothing is spelled in another way. -/
theorem Glossed.revised {move : Nat → Nat} : ∀ {above : String} {node copy : Node},
    Glossed move above node copy →
      Revised ⟨.same, fun start other => other = move start⟩ above node copy
  | _, _, _, .mk kept unnoticed below =>
    .mk rfl (kept.imp_left fun same => by
      subst same
      exact .refl _ _ _ _) unnoticed (.inr Spelling.isSame_same) below.revised

theorem GlossedAll.revised {move : Nat → Nat} :
    ∀ {above : String} {nodes copies : List Node}, GlossedAll move above nodes copies →
      RevisedAll ⟨.same, fun start other => other = move start⟩ above nodes copies
  | _, _, _, .nil => .nil
  | _, _, _, .cons head tail => .cons head.revised tail.revised
  | _, _, _, .insert start line text tail => .insert start line text tail.revised

end

mutual

/-- A copy stays one when less is asked of the places of nodes. -/
theorem Revised.mono {change : Change} {places : Nat → Nat → Prop}
    (implied : ∀ start other, change.places start other → places start other) :
    ∀ {above : String} {node copy : Node}, Revised change above node copy →
      Revised ⟨change.spelling, places⟩ above node copy
  | _, _, _, .mk placed kept unnoticed usual below =>
    .mk (implied _ _ placed) kept unnoticed usual (below.mono implied)

theorem RevisedAll.mono {change : Change} {places : Nat → Nat → Prop}
    (implied : ∀ start other, change.places start other → places start other) :
    ∀ {above : String} {nodes copies : List Node}, RevisedAll change above nodes copies →
      RevisedAll ⟨change.spelling, places⟩ above nodes copies
  | _, _, _, .nil => .nil
  | _, _, _, .cons head tail => .cons (head.mono implied) (tail.mono implied)
  | _, _, _, .insert start line text tail => .insert start line text (tail.mono implied)

end

mutual

/-- Whatever stays in its place is a copy of itself. -/
theorem Revised.refl {places : Nat → Nat → Prop} (reflexive : ∀ start, places start start) :
    ∀ {above : String} (node : Node), Revised ⟨.same, places⟩ above node node
  | _, .mk _ _ _ _ _ _ children =>
    .mk (reflexive _) (.inl (.refl _ _ _ _)) (.inl rfl) (.inr Spelling.isSame_same)
      (.refl reflexive children)

theorem RevisedAll.refl {places : Nat → Nat → Prop} (reflexive : ∀ start, places start start) :
    ∀ {above : String} (nodes : List Node), RevisedAll ⟨.same, places⟩ above nodes nodes
  | _, [] => .nil
  | _, node :: rest => .cons (.refl reflexive node) (.refl reflexive rest)

end

mutual

/-- The copy has as many nodes, comments apart. -/
theorem Revised.length_substance_eq {change : Change} :
    ∀ {above : String} {node copy : Node}, Revised change above node copy →
      node.substance.length = copy.substance.length
  | _, _, _, .mk _ _ _ _ below => by
    have same := below.length_substance_eq
    rw [← List.countP_eq_length_filter, ← List.countP_eq_length_filter] at same
    rw [substance, substance, walk, walk, ← List.countP_eq_length_filter,
      ← List.countP_eq_length_filter, List.countP_cons, List.countP_cons, same]
    rfl

/-- Both editions have as many nodes besides their comments. -/
theorem RevisedAll.length_substance_eq {change : Change} :
    ∀ {above : String} {nodes copies : List Node}, RevisedAll change above nodes copies →
      ((walkAll nodes).filter fun node => !node.isComment).length =
        ((walkAll copies).filter fun node => !node.isComment).length
  | _, _, _, .nil => rfl
  | _, _, _, .cons head tail => by
    rw [walkAll, walkAll, List.filter_append, List.filter_append, List.length_append,
      List.length_append, tail.length_substance_eq]
    exact congrArg (· + _) head.length_substance_eq
  | _, _, _, .insert _ _ _ tail => by
    rw [walkAll, List.filter_append, List.length_append, ← tail.length_substance_eq]
    exact (Nat.zero_add _).symm

end

namespace Revised

variable {change : Change} {above : String} {node copy : Node}

variable (revised : Revised change above node copy)

include revised

theorem kind_eq : node.kind = copy.kind := by
  cases revised
  rfl

theorem named_eq : node.named = copy.named := by
  cases revised
  rfl

theorem role_eq : node.role = copy.role := by
  cases revised
  rfl

theorem placed :
    change.places node.start copy.start := by
  cases revised with
  | mk placed _ _ _ _ => exact placed

theorem kept :
    Keeps change.spelling above node.role node.kind node.text copy.text ∨
      isUnread above node.role node.kind = true := by
  cases revised with
  | mk _ kept _ _ _ => exact kept

theorem unnoticed :
    Unnoticed (context node.kind node.role) node.children copy.children := by
  cases revised with
  | mk _ _ unnoticed _ _ => exact unnoticed

theorem usual :
    isUsual node.kind node.role node.children = true ∨ change.spelling.IsSame := by
  cases revised with
  | mk _ _ _ usual _ => exact usual

theorem children :
    Interleaved (Revised change (context node.kind node.role)) node.children copy.children := by
  cases revised with
  | mk _ _ _ _ below => exact below.interleaved

end Revised

/-! ## Heights -/

open ModuleAtlas.Types in
theorem one_le_height (node : Node) : 1 ≤ height node := by
  obtain ⟨_, _, _, _, _, _, children⟩ := node
  exact Nat.succ_le_succ (Nat.zero_le _)

open ModuleAtlas.Types in
theorem height_le_heights {node : Node} {nodes : List Node} (member : node ∈ nodes) :
    height node ≤ heights nodes := by
  induction nodes with
  | nil => cases member
  | cons first rest ih =>
    rw [heights]
    rcases List.mem_cons.mp member with rfl | later
    · exact Nat.le_max_left _ _
    · exact Nat.le_trans (ih later) (Nat.le_max_right _ _)

mutual

/-- Comments are no higher than the lowest of other nodes. -/
theorem Revised.height_eq {change : Change} {above : String} :
    ∀ {node copy : Node}, Revised change above node copy → Types.height node = Types.height copy
  | _, _, .mk _ _ unnoticed _ below => by
    rw [Types.height, Types.height]
    obtain ⟨low, high⟩ := below.heights_between
    rcases unnoticed with same | ⟨some, _⟩
    · rw [below.heights_eq same]
    · obtain ⟨first, rest, rfl⟩ := List.exists_cons_of_ne_nil some
      have below : Types.height first ≤ Types.heights (first :: rest) :=
        height_le_heights List.mem_cons_self
      have positive := one_le_height first
      omega

/-- Comments raise a tree by no more than one leaf. -/
theorem RevisedAll.heights_between {change : Change} {above : String} :
    ∀ {nodes copies : List Node}, RevisedAll change above nodes copies →
      Types.heights nodes ≤ Types.heights copies ∧
        Types.heights copies ≤ max (Types.heights nodes) 1
  | _, _, .nil => ⟨Nat.le_refl _, Nat.zero_le _⟩
  | _, _, .cons head tail => by
    have same := head.height_eq
    obtain ⟨low, high⟩ := tail.heights_between
    rw [Types.heights, Types.heights]
    omega
  | _, _, .insert start line text tail => by
    obtain ⟨low, high⟩ := tail.heights_between
    have single : Types.height (comment start line text) = 1 := rfl
    rw [Types.heights, single]
    omega

theorem RevisedAll.heights_eq {change : Change} {above : String} :
    ∀ {nodes copies : List Node}, RevisedAll change above nodes copies →
      copies.length = nodes.length → Types.heights nodes = Types.heights copies
  | _, _, .nil, _ => rfl
  | _, _, .cons head tail, same => by
    rw [Types.heights, Types.heights, head.height_eq, tail.heights_eq (Nat.succ.inj same)]
  | _, _, .insert start line text tail, same => by
    have shorter := tail.interleaved.length_le
    rw [List.length_cons] at same
    omega

end

/-! ## What readers find -/

/-- A node and its copy, wherever they stand. -/
def Copied (change : Change) (node copy : Node) : Prop := ∃ above, Revised change above node copy

/-- The kinds of types that are names. -/
def referenceKinds : List String := ["type_identifier", "identifier", "nested_type_identifier"]

/-- The text of a type and that of its copy. -/
structure TypeText (spelling : Spelling) (node copy : Node) : Prop where
  spelled : spelling.spelled node.text copy.text
  names : referenceKinds.contains node.kind = true → spelling.Names node.text copy.text

/-- A text that the copy has as well. -/
structure NameText (spelling : Spelling) (node copy : Node) : Prop where
  same : node.text = copy.text
  fixed : spelling.Fixed node.text
  inner : node.kind = "string" → spelling.Fixed (Text.inner node.text)

/-- A node that stands for a type, and its copy. -/
def CopiedType (change : Change) (node copy : Node) : Prop :=
  Copied change node copy ∧
    (TypeText change.spelling node copy ∨ composedKinds.contains node.kind = true)

/-- A node that stands for a value, and its copy. -/
def CopiedValue (change : Change) (node copy : Node) : Prop :=
  Copied change node copy ∧
    (valueKinds.contains node.kind = true → NameText change.spelling node copy)

/-- A node that stands for a name, and its copy. -/
def CopiedName (change : Change) (node copy : Node) : Prop :=
  Copied change node copy ∧ NameText change.spelling node copy

variable {change : Change} {above : String} {node copy : Node} {kind : String}

theorem Keeps.name {spelling : Spelling}
    (kept : Keeps spelling above node.role node.kind node.text copy.text)
    (same : node.text = copy.text) :
    NameText spelling node copy := by
  refine ⟨same, ?_, fun isString => ?_⟩
  · have fixed := kept.spelled
    rwa [← same] at fixed
  · have fixed := kept.inner isString
    rwa [← same] at fixed

/-- No text of a value is put together from its parts. -/
theorem notComposed_of_valueKinds (isValue : valueKinds.contains kind = true) :
    composedKinds.contains kind = false := by
  have all : ∀ value ∈ valueKinds, composedKinds.contains value = false := by decide
  exact all kind (List.contains_iff_mem.mp isValue)

theorem valueKinds_of_wordKinds (isWord : wordKinds.contains kind = true) :
    valueKinds.contains kind = true := by
  have all : ∀ word ∈ wordKinds, valueKinds.contains word = true := by decide
  exact all kind (List.contains_iff_mem.mp isWord)

namespace Revised

variable (revised : Revised change above node copy)

include revised

theorem copied : Copied change node copy := ⟨above, revised⟩

theorem kept_of_context (reads : readingKinds.contains above = true) :
    Keeps change.spelling above node.role node.kind node.text copy.text := by
  refine revised.kept.resolve_right ?_
  rw [isUnread, reads, Bool.not_true, Bool.false_and, Bool.false_and]
  exact Bool.false_ne_true

theorem name_of_context (reads : nameContexts.contains above = true) :
    NameText change.spelling node copy := by
  have kept := revised.kept_of_context (by
    rw [readingKinds, List.contains_cons, reads, Bool.or_true])
  have noParameter : (above == "type_parameter") = false := by
    have all : ∀ context ∈ nameContexts, (context == "type_parameter") = false := by decide
    exact all above (List.contains_iff_mem.mp reads)
  refine kept.name (kept.same ?_)
  rw [isTypeText, reads, noParameter, Bool.not_true, Bool.and_false, ite_self, Bool.and_false]

theorem kept_of_role {role : String} (ofRole : node.role = some role)
    (isName : nameRoles.contains role = true) :
    Keeps change.spelling above node.role node.kind node.text copy.text := by
  refine revised.kept.resolve_right ?_
  rw [isUnread, ofRole, Option.getD_some, isName, Bool.not_true, Bool.and_false, Bool.false_and]
  exact Bool.false_ne_true

theorem name_of_role {role : String} (ofRole : node.role = some role)
    (isName : nameRoles.contains role = true) (other : role = "name" → above ≠ "type_parameter") :
    NameText change.spelling node copy := by
  have kept := revised.kept_of_role ofRole isName
  refine kept.name (kept.same ?_)
  rw [isTypeText, ofRole, Option.getD_some, isName, Bool.not_true, Bool.and_false, Bool.false_and]
  by_cases ofName : role = "name"
  · rw [beq_false_of_ne (other ofName), ite_self, Bool.and_false]
  · rw [if_neg (by simpa using ofName), Bool.and_false]

theorem type (isType : isTypePlace above node.role = true) : CopiedType change node copy := by
  refine ⟨revised.copied, ?_⟩
  rcases revised.kept with kept | unread
  · refine .inl ⟨kept.spelled, fun isName => ?_⟩
    by_cases isPlain : node.kind = "type_identifier"
    · exact kept.names isPlain
    · have isValue : valueKinds.contains node.kind = true := by
        simp only [referenceKinds, List.contains_cons, List.contains_nil, Bool.or_false,
          beq_false_of_ne isPlain, Bool.false_or, Bool.or_eq_true, beq_iff_eq] at isName
        rcases isName with kind | kind <;> rw [kind] <;> decide
      have name := kept.name (kept.same (by
        rw [isTypeText, isValue, Bool.not_true, Bool.false_and]))
      exact .inr ⟨name.same, name.fixed⟩
  · rw [isUnread, isType, Bool.true_or, Bool.true_or, Bool.not_true, Bool.or_false] at unread
    exact .inr (Bool.and_eq_true_iff.mp unread).2

/-- The text of a value that is read stays what it is. -/
theorem name_of_value (isValue : valueKinds.contains node.kind = true)
    (isRead : wordKinds.contains node.kind = true ∨ isValuePlace above node.role = true) :
    NameText change.spelling node copy := by
  have kept := revised.kept.resolve_right ?_
  · refine kept.name (kept.same ?_)
    rw [isTypeText, isValue, Bool.not_true, Bool.false_and]
  · have read : (isTypePlace above node.role || wordKinds.contains node.kind
        || valueKinds.contains node.kind && isValuePlace above node.role) = true := by
      rcases isRead with isWord | isPlace
      · rw [isWord, Bool.or_true, Bool.true_or]
      · rw [isValue, isPlace, Bool.and_self, Bool.or_true]
    rw [isUnread, notComposed_of_valueKinds isValue, read, Bool.not_true, Bool.or_self,
      Bool.and_false]
    exact Bool.false_ne_true

theorem value (isPlace : isValuePlace above node.role = true) :
    CopiedValue change node copy :=
  ⟨revised.copied, fun isValue => revised.name_of_value isValue (.inr isPlace)⟩

end Revised

theorem isValuePlace_of_role (context : String) {role : String}
    (isValue : valueRoles.contains role = true) :
    isValuePlace context (some role) = true := by
  rw [isValuePlace, Option.getD_some, isValue, Bool.or_true]

theorem isTypePlace_of_context {context : String} (isType : typeContexts.contains context = true)
    (role : Option String) :
    isTypePlace context role = true := by
  rw [isTypePlace, isType]
  rfl

theorem isTypePlace_of_role (context : String) {role : String}
    (isType : role = "type" ∨ role = "return_type") :
    isTypePlace context (some role) = true := by
  rcases isType with rfl | rfl <;> simp [isTypePlace]

/-! ### Contexts -/

theorem valueContexts_of_type (isType : typeContexts.contains kind = true) :
    valueContexts.contains kind = true := by
  rw [valueContexts, List.append_assoc, List.contains_append, isType, Bool.true_or]

theorem valueContexts_of_names (reads : nameContexts.contains kind = true) :
    valueContexts.contains kind = true := by
  rw [valueContexts, List.contains_append, List.contains_append, reads, Bool.or_true, Bool.true_or]

/-- A node of a kind that reads its children is for them what it is, or a list of type arguments. -/
theorem context_cases (reads : valueContexts.contains kind = true)
    (role : Option String) :
    context kind role = "type_arguments" ∨ context kind role = kind := by
  unfold context
  rw [reads, Bool.not_true, Bool.and_false]
  split
  · exact .inl rfl
  · exact .inr rfl

/-- The children of a body, of whatever kind, are read. -/
theorem reads_body (kind : String) :
    valueContexts.contains (context kind (some "body")) = true := by
  unfold context
  rw [if_neg (by decide), beq_self_eq_true, Bool.true_and]
  split
  · decide
  · rename_i reads
    simpa using reads

theorem context_ne_parameter (other : kind ≠ "type_parameter")
    (role : Option String) :
    context kind role ≠ "type_parameter" := by
  unfold context
  split
  · decide
  · split
    · decide
    · exact other

/-- Comments go unnoticed anywhere among children that are not read. -/
theorem margin_of_unread (unread : valueContexts.contains kind = false) :
    margin kind = .anywhere := by
  have notAmong : ∀ kinds : List String, kinds ⊆ valueContexts → kinds.contains kind = false := by
    intro kinds within
    rw [← Bool.not_eq_true, List.contains_iff_mem] at unread ⊢
    exact fun member => unread (within member)
  have notBetween : (kind == "as_expression") = false :=
    beq_false_of_ne fun same => by
      rw [same] at unread
      cases unread
  rw [margin, notAmong countingKinds (by decide), notAmong lastKinds (by decide),
    notAmong firstKinds (by decide), notBetween]
  rfl

theorem margin_typeArguments : margin "type_arguments" = .nowhere := by decide

/-- Where comments go unnoticed in a list of children, they do so by the kind of the node. -/
theorem margin_context (kind : String) (role : Option String) :
    margin (context kind role) = .nowhere ∨ margin (context kind role) = margin kind := by
  unfold context
  split
  · exact .inl margin_typeArguments
  · split
    · rename_i isBody
      have unread : valueContexts.contains kind = false := by
        simpa using (Bool.and_eq_true_iff.mp isBody).2
      exact .inr ((by decide : margin "enum_body" = .anywhere).trans (margin_of_unread unread).symm)
    · exact .inr rfl

theorem typeContexts_context (isType : typeContexts.contains kind = true)
    (role : Option String) :
    typeContexts.contains (context kind role) = true := by
  rcases context_cases (valueContexts_of_type isType) role with same | same
  · rw [same]
    decide
  · rw [same, isType]

theorem isValuePlace_of_context (isValue : valueContexts.contains kind = true)
    (role childRole : Option String) :
    isValuePlace (context kind role) childRole = true := by
  have isContext : valueContexts.contains (context kind role) = true := by
    rcases context_cases isValue role with same | same
    · rw [same]
      decide
    · rw [same, isValue]
  rw [isValuePlace, isContext, Bool.true_or]

namespace Copied

section

variable (copied : Copied change node copy)

include copied

theorem kind_eq : node.kind = copy.kind := by
  obtain ⟨_, revised⟩ := copied
  exact revised.kind_eq

theorem height_eq : Types.height node = Types.height copy := by
  obtain ⟨_, revised⟩ := copied
  exact revised.height_eq

/-- The texts of some kinds of names stay what they are wherever the nodes stand. -/
theorem name (isWord : wordKinds.contains node.kind = true) :
    NameText change.spelling node copy := by
  obtain ⟨_, part⟩ := copied
  exact part.name_of_value (valueKinds_of_wordKinds isWord) (.inl isWord)

/-- What is read as the name that a child is. -/
theorem name_of_part (reads : nameContexts.contains node.kind = true) {child other : Node}
    (part : Revised change (context node.kind node.role) child other) :
    NameText change.spelling child other := by
  obtain ⟨_, revised⟩ := copied
  by_cases isList : node.role = some "type_arguments"
  · have isSame := revised.usual.resolve_left (by
      rw [isUsual, isList, reads]
      exact Bool.false_ne_true)
    have ofContext : context node.kind node.role = "type_arguments" := by
      rw [context, isList]
      rfl
    rw [ofContext] at part
    have kept := part.kept_of_context (by decide)
    exact kept.name (isSame.eq_of_spelled kept.spelled)
  · have ofKind : context node.kind node.role = node.kind := by
      rw [context, if_neg (mt eq_of_beq isList), valueContexts_of_names reads, Bool.not_true,
        Bool.and_false, if_neg Bool.false_ne_true]
    rw [ofKind] at part
    exact part.name_of_context reads

end

/-! ### Children -/

section

variable (copied : Copied change node copy)

include copied

theorem children :
    Interleaved (Revised change (context node.kind node.role)) node.children copy.children := by
  obtain ⟨_, revised⟩ := copied
  exact revised.children

theorem namedChildren :
    Interleaved (Revised change (context node.kind node.role)) node.namedChildren
      copy.namedChildren :=
  copied.children.filter_keeping (fun _ _ part => part.named_eq) fun _ _ _ => rfl

theorem hasChild_eq (different : commentKind ≠ kind) :
    node.hasChild kind = copy.hasChild kind := by
  refine copied.children.any_eq (fun _ _ part => ?_) fun _ _ _ => ?_
  · rw [part.kind_eq]
  · simpa [comment, Node.kind] using different

/-- A role is taken by related children, or by none in both editions. -/
theorem child?_part (role : String) :
    Option.Rel
      (fun child other => Revised change (context node.kind node.role) child other ∧
        child.role = some role)
      (node.child? role) (copy.child? role) := by
  have related : Option.Rel (Revised change (context node.kind node.role)) (node.child? role)
      (copy.child? role) :=
    copied.children.find? (fun _ _ part => by rw [part.role_eq]) fun _ _ _ => rfl
  rcases optionRel_cases related with ⟨none, noCopy⟩ | ⟨child, other, found, copyFound, part⟩
  · rw [none, noCopy]
    exact .none
  · rw [found, copyFound]
    unfold Node.child? at found
    have ofRole := List.find?_some found
    exact .some ⟨part, eq_of_beq ofRole⟩

theorem child? (role : String) :
    Option.Rel (Copied change) (node.child? role) (copy.child? role) :=
  optionRel_mono (copied.child?_part role) fun _ _ ⟨part, _⟩ => part.copied

theorem child?_name (role : String) (isName : nameRoles.contains role = true)
    (other : role = "name" → node.kind ≠ "type_parameter") :
    Option.Rel (CopiedName change) (node.child? role) (copy.child? role) := by
  exact optionRel_mono (copied.child?_part role) fun _ _ ⟨part, ofRole⟩ =>
    ⟨part.copied, part.name_of_role ofRole isName fun ofName =>
      context_ne_parameter (other ofName) _⟩

theorem child?_type (role : String) (isType : role = "type" ∨ role = "return_type") :
    Option.Rel (CopiedType change) (node.child? role) (copy.child? role) :=
  optionRel_mono (copied.child?_part role) fun _ _ ⟨part, ofRole⟩ =>
    part.type (ofRole ▸ isTypePlace_of_role _ isType)

theorem child?_read (role : String) (isValue : valueRoles.contains role = true) :
    Option.Rel (CopiedValue change) (node.child? role) (copy.child? role) :=
  optionRel_mono (copied.child?_part role) fun _ _ ⟨part, ofRole⟩ =>
    part.value (ofRole ▸ isValuePlace_of_role _ isValue)

/-- The types that aliases and defaults of type parameters stand for. -/
theorem child?_value (isPlace : isTypePlace (context node.kind node.role) (some "value") = true) :
    Option.Rel (CopiedType change) (node.child? "value") (copy.child? "value") :=
  optionRel_mono (copied.child?_part "value") fun _ _ ⟨part, ofRole⟩ => part.type (ofRole ▸ isPlace)

variable (role : String) (isName : nameRoles.contains role = true)
  (other : role = "name" → node.kind ≠ "type_parameter")

include role isName other

theorem child?_text :
    (node.child? role).map Node.text = (copy.child? role).map Node.text :=
  optionMap_eq (copied.child?_name role isName other) fun _ _ name => name.2.same

theorem textOf_eq :
    textOf (node.child? role) = textOf (copy.child? role) := by
  unfold textOf
  rw [copied.child?_text role isName other]

theorem fixed_textOf :
    change.spelling.Fixed (textOf (node.child? role)) := by
  unfold textOf
  rcases optionRel_cases (copied.child?_name role isName other) with
    ⟨none, _⟩ | ⟨child, _, found, _, _, named⟩
  · rw [none]
    exact change.spelling.own (by decide)
  · rw [found]
    exact named.fixed

end

/-! ### The first, the last and all children -/

/-- A list of children has no comments, or comments where they go unnoticed. -/
theorem unnoticed (copied : Copied change node copy) :
    Unnoticed (context node.kind node.role) node.children copy.children := by
  obtain ⟨_, revised⟩ := copied
  exact revised.unnoticed

section

variable (copied : Copied change node copy)

include copied

/-- Lists of the same length have the same children at the same places. -/
theorem named_of_same (same : copy.children.length = node.children.length) :
    Listwise (Revised change (context node.kind node.role)) node.namedChildren
      copy.namedChildren :=
  (copied.children.listwise same).filter fun _ _ part => part.named_eq

/-- Either all children are at the same places, or comments stand where the kind of the node allows
them. -/
theorem named_cases :
    Listwise (Revised change (context node.kind node.role)) node.namedChildren
        copy.namedChildren ∨
      (margin node.kind).Allows copy.namedChildren := by
  rcases copied.unnoticed with same | ⟨_, allowed⟩
  · exact .inl (copied.named_of_same same)
  · rcases margin_context node.kind node.role with nowhere | same
    · rw [nowhere] at allowed
      exact allowed.elim
    · rw [same] at allowed
      exact .inr allowed

theorem every (counts : margin node.kind = .nowhere) :
    Listwise (Revised change (context node.kind node.role)) node.namedChildren
      copy.namedChildren := by
  refine copied.named_cases.resolve_right fun allowed => ?_
  rw [counts] at allowed
  exact allowed

theorem first? (isFirst : margin node.kind = .afterFirst) :
    Option.Rel (Revised change (context node.kind node.role)) node.firstNamed?
      copy.firstNamed? := by
  rcases copied.named_cases with same | allowed
  · exact same.head?
  · rw [isFirst] at allowed
    exact copied.namedChildren.head? allowed

theorem last? (isLast : margin node.kind = .beforeLast) :
    Option.Rel (Revised change (context node.kind node.role)) node.lastNamed?
      copy.lastNamed? := by
  rcases copied.named_cases with same | allowed
  · exact same.getLast?
  · rw [isLast] at allowed
    exact copied.namedChildren.getLast? allowed

/-- What is in front and what stands at the end of the rest. -/
theorem first_and_last (isBetween : margin node.kind = .between) :
    (node.namedChildren = [] ∧ copy.namedChildren = []) ∨
      ∃ first rest firstCopy restCopies,
        node.namedChildren = first :: rest ∧ copy.namedChildren = firstCopy :: restCopies ∧
        Revised change (context node.kind node.role) first firstCopy ∧
        Option.Rel (Revised change (context node.kind node.role)) rest.getLast?
          restCopies.getLast? := by
  rcases copied.named_cases with same | allowed
  · revert same
    generalize node.namedChildren = nodes
    generalize copy.namedChildren = copies
    intro same
    cases same with
    | nil => exact .inl ⟨rfl, rfl⟩
    | cons head tail => exact .inr ⟨_, _, _, _, rfl, rfl, head, tail.getLast?⟩
  · rw [isBetween] at allowed
    obtain ⟨noFirst, noLast⟩ := allowed
    have interleaved := copied.namedChildren
    revert interleaved noFirst noLast
    generalize node.namedChildren = nodes
    generalize copy.namedChildren = copies
    intro noFirst noLast interleaved
    cases interleaved with
    | nil => exact .inl ⟨rfl, rfl⟩
    | insert start line text _ => exact absurd rfl (noFirst _ rfl)
    | @cons first firstCopy rest restCopies head tail =>
      refine .inr ⟨_, _, _, _, rfl, rfl, head, tail.getLast? fun last found => noLast last ?_⟩
      cases restCopies with
      | nil => cases found
      | cons next others => rw [List.getLast?_cons_cons, found]

/-! ### Types -/

theorem first?_type (isFirst : margin node.kind = .afterFirst)
    (isType : typeContexts.contains node.kind = true) :
    Option.Rel (CopiedType change) node.firstNamed? copy.firstNamed? :=
  optionRel_mono (copied.first? isFirst) fun _ _ part =>
    part.type (isTypePlace_of_context (typeContexts_context isType _) _)

theorem last?_type (isLast : margin node.kind = .beforeLast)
    (isType : typeContexts.contains node.kind = true) :
    Option.Rel (CopiedType change) node.lastNamed? copy.lastNamed? :=
  optionRel_mono (copied.last? isLast) fun _ _ part =>
    part.type (isTypePlace_of_context (typeContexts_context isType _) _)

theorem every_type (counts : margin node.kind = .nowhere)
    (isType : typeContexts.contains node.kind = true) :
    Listwise (CopiedType change) node.namedChildren copy.namedChildren :=
  (copied.every counts).mono fun _ _ part =>
    part.type (isTypePlace_of_context (typeContexts_context isType _) _)

end

/-- The arguments of a use of a type are written in the same way. -/
theorem typeArguments (copied : Copied change node copy) :
    Listwise (fun argument other => CopiedType change argument other ∧
        change.spelling.spelled argument.text other.text)
      (Types.typeArguments node) (Types.typeArguments copy) := by
  unfold Types.typeArguments
  rcases optionRel_cases (copied.child?_part "type_arguments") with
    ⟨none, noCopy⟩ | ⟨list, other, found, copyFound, part, ofRole⟩
  · rw [none, noCopy]
    exact .nil
  · rw [found, copyFound]
    have ofContext : context list.kind list.role = "type_arguments" := by
      rw [context, ofRole]
      rfl
    have same : other.children.length = list.children.length := by
      rcases part.unnoticed with same | ⟨_, allowed⟩
      · exact same
      · rw [ofContext, margin_typeArguments] at allowed
        exact allowed.elim
    refine (part.copied.named_of_same same).mono fun argument _ argumentPart => ?_
    rw [ofContext] at argumentPart
    exact ⟨argumentPart.type (isTypePlace_of_context (by decide) _),
      (argumentPart.kept_of_context (by decide)).spelled⟩

end Copied

/-- Names of properties are read off the kind and the text of a node. -/
theorem propertyName_eq_of_copied {name other : Option Node}
    (related : Option.Rel (CopiedName change) name other) :
    Types.propertyName name = Types.propertyName other := by
  cases related with
  | none => rfl
  | some related =>
    obtain ⟨copied, named⟩ := related
    unfold Types.propertyName
    dsimp only
    rw [copied.kind_eq, named.same]

theorem fixed_propertyName {name other : Option Node}
    (related : Option.Rel (CopiedName change) name other) :
    change.spelling.Fixed (Types.propertyName name) := by
  cases related with
  | none => exact change.spelling.own (by decide)
  | some related =>
    obtain ⟨_, named⟩ := related
    unfold Types.propertyName
    dsimp only
    split
    · rename_i isQuoted
      exact named.inner (eq_of_beq (Bool.and_eq_true_iff.mp isQuoted).1)
    · exact named.fixed

/-! ### Members of unions and values of return statements -/

theorem Copied.refl {places : Nat → Nat → Prop} (reflexive : ∀ start, places start start)
    (node : Node) :
    Copied ⟨.same, places⟩ node node :=
  ⟨"", .refl reflexive node⟩

theorem Copied.placed (inner : Copied change node copy) : change.places node.start copy.start := by
  obtain ⟨_, revised⟩ := inner
  exact revised.placed

theorem Copied.mono {places : Nat → Nat → Prop} (inner : Copied change node copy)
    (implied : ∀ start other, change.places start other → places start other) :
    Copied ⟨change.spelling, places⟩ node copy := by
  obtain ⟨above, revised⟩ := inner
  exact ⟨above, revised.mono implied⟩

mutual

/-- Nested unions have related members in both editions. -/
theorem Revised.flatten {kind : String} (counts : margin kind = .nowhere)
    (isType : typeContexts.contains kind = true) :
    ∀ {above : String} {node copy : Node}, Revised change above node copy → node.kind = kind →
      Listwise (CopiedType change) (Types.flatten kind node) (Types.flatten kind copy)
  | _, _, _, .mk _ _ unnoticed _ below, rfl => by
    rw [Types.flatten, Types.flatten]
    refine below.flattenAll counts isType (typeContexts_context isType _) ?_
    rcases unnoticed with same | ⟨_, allowed⟩
    · exact same
    · rcases margin_context _ _ with nowhere | same
      · rw [nowhere] at allowed
        exact allowed.elim
      · rw [same] at allowed
        exact (counts ▸ allowed : Margin.Allows .nowhere _).elim

theorem RevisedAll.flattenAll {kind : String} (counts : margin kind = .nowhere)
    (isType : typeContexts.contains kind = true) :
    ∀ {above : String} {nodes copies : List Node}, RevisedAll change above nodes copies →
      typeContexts.contains above = true → copies.length = nodes.length →
      Listwise (CopiedType change) (Types.flattenAll kind nodes) (Types.flattenAll kind copies)
  | _, _, _, .nil, _, _ => by
    rw [Types.flattenAll]
    exact .nil
  | _, _, _, .cons head tail, ofContext, same => by
    rw [Types.flattenAll, Types.flattenAll, head.named_eq, ← head.kind_eq]
    refine Listwise.append ?_ (tail.flattenAll counts isType ofContext (Nat.succ.inj same))
    split
    · exact .nil
    · split
      · exact head.flatten counts isType (eq_of_beq ‹_›)
      · exact .cons (head.type (isTypePlace_of_context ofContext _)) .nil
  | _, _, _, .insert start line text tail, _, same => by
    have shorter := tail.interleaved.length_le
    rw [List.length_cons] at same
    omega

end

theorem Revised.firstNamed? (revised : Revised change above node copy)
    (isFirst : margin node.kind = .afterFirst) (isValue : valueContexts.contains node.kind = true) :
    Option.Rel (CopiedValue change) node.firstNamed? copy.firstNamed? :=
  optionRel_mono (revised.copied.first? isFirst) fun _ _ part =>
    part.value (isValuePlace_of_context isValue _ _)

open ModuleAtlas.Types in
mutual

/-- A function returns related values in both editions. -/
theorem Revised.returnsOf {change : Change} :
    ∀ {above : String} {node copy : Node}, Revised change above node copy →
      Listwise (CopiedValue change) (returnsOf node) (returnsOf copy)
  | _, _, _, revised@(.mk _ _ _ _ below) => by
    rw [Types.returnsOf, Types.returnsOf]
    split
    · exact .nil
    · split
      · rename_i isReturn
        refine optionToList_related (revised.firstNamed? ?_ ?_) <;>
          rw [Node.kind, eq_of_beq isReturn] <;> decide
      · exact below.returnsAmong

theorem RevisedAll.returnsAmong {change : Change} :
    ∀ {above : String} {nodes copies : List Node}, RevisedAll change above nodes copies →
      Listwise (CopiedValue change) (returnsAmong nodes) (returnsAmong copies)
  | _, _, _, .nil => by
    rw [Types.returnsAmong]
    exact .nil
  | _, _, _, .cons head tail => by
    rw [Types.returnsAmong, Types.returnsAmong, head.named_eq]
    refine Listwise.append ?_ tail.returnsAmong
    split
    · exact head.returnsOf
    · exact .nil
  | _, _, _, .insert start line text tail => by
    rw [Types.returnsAmong]
    have nothing : returnsOf (comment start line text) = [] := by
      simp [Node.comment, Types.returnsOf, Types.returnsAmong, commentKind, nestedScopes]
    rw [nothing, ite_self, List.nil_append]
    exact tail.returnsAmong

end

namespace Copied

variable (copied : Copied change node copy)

include copied

/-- Comments in a union or an intersection would be members of it. -/
theorem members (counts : margin node.kind = .nowhere)
    (isType : typeContexts.contains node.kind = true) :
    Listwise (CopiedType change) (Types.flatten node.kind node)
      (Types.flatten node.kind copy) := by
  obtain ⟨_, revised⟩ := copied
  exact revised.flatten counts isType rfl

/-- The values that the statements of a body return. -/
theorem returns :
    Listwise (CopiedValue change) (Types.returnsAmong node.children)
      (Types.returnsAmong copy.children) := by
  obtain ⟨_, revised⟩ := copied
  cases revised with
  | mk _ _ _ _ below => exact below.returnsAmong

end Copied

end Node
end ModuleAtlas
