import ModuleAtlas.Source.Module
import Mathlib.Data.List.Forall2

/-!
# Comments and imports

What a file imports is read off some children by their role, off others by their kind, and off the
first argument of a call by its position.  Comments play no role and are of a kind of their own, so
inserting them changes nothing but what stands first: a comment before the first argument of a call
hides what the call imports, and nothing else does.
-/

namespace ModuleAtlas
namespace Node

/-! ## Inserting comments -/

/-- The kind of comments. -/
def commentKind : String := "comment"

/-- A comment somewhere in a file: it plays no role and has no parts. -/
def comment (start line : Nat) (text : String) : Node :=
  .mk commentKind true none start line text []

mutual

/-- A tree with comments inserted anywhere.  The places of all nodes may move, and what they cover
changes with them, except for string literals and identifiers. -/
inductive Commented : Node → Node → Prop
  | mk {kind : String} {named : Bool} {role : Option String} {start otherStart : Nat}
      {line otherLine : Nat} {text otherText : String} {children otherChildren : List Node} :
      (kind = "string" ∨ kind = "identifier" → otherText = text) →
      CommentedAll children otherChildren →
      Commented (.mk kind named role start line text children)
        (.mk kind named role otherStart otherLine otherText otherChildren)

/-- A list of trees with comments inserted anywhere. -/
inductive CommentedAll : List Node → List Node → Prop
  | nil : CommentedAll [] []
  | cons {node other : Node} {rest others : List Node} :
      Commented node other → CommentedAll rest others →
      CommentedAll (node :: rest) (other :: others)
  | insert {rest others : List Node} (start line : Nat) (text : String) :
      CommentedAll rest others →
      CommentedAll rest (comment start line text :: others)

end

mutual

@[refl]
theorem Commented.refl : ∀ node : Node, Commented node node
  | .mk _ _ _ _ _ _ children => .mk (fun _ => rfl) (CommentedAll.refl children)

@[refl]
theorem CommentedAll.refl : ∀ nodes : List Node, CommentedAll nodes nodes
  | [] => .nil
  | node :: rest => .cons (Commented.refl node) (CommentedAll.refl rest)

end

variable {node other : Node} {nodes others : List Node}

section

variable (commented : Commented node other)

include commented

theorem Commented.kind_eq : other.kind = node.kind := by
  cases commented
  rfl

theorem Commented.named_eq : other.named = node.named := by
  cases commented
  rfl

theorem Commented.role_eq : other.role = node.role := by
  cases commented
  rfl

theorem Commented.children :
    CommentedAll node.children other.children := by
  cases commented with
  | mk _ children => exact children

theorem Commented.text_eq (kept : node.kind = "string" ∨ node.kind = "identifier") :
    other.text = node.text := by
  cases commented with
  | mk text _ => exact text kept

theorem Commented.stringContent?_eq :
    other.stringContent? = node.stringContent? := by
  unfold stringContent?
  rw [commented.kind_eq]
  by_cases literal : node.kind = "string"
  · rw [commented.text_eq (.inl literal)]
  · simp [literal]

end

/-! ## Children -/

/-- Two nodes that are found in a tree and in the tree with comments correspond to each other. -/
inductive Corresponds : Option Node → Option Node → Prop
  | none : Corresponds none none
  | some {node other : Node} : Commented node other → Corresponds (some node) (some other)

theorem Corresponds.exists_of_some {otherFound : Option Node}
    (corresponds : Corresponds (Option.some node) otherFound) :
    ∃ other, otherFound = Option.some other ∧ Commented node other := by
  cases corresponds with
  | some commented => exact ⟨_, rfl, commented⟩

theorem Corresponds.bind_stringContent? {found otherFound : Option Node}
    (corresponds : Corresponds found otherFound) :
    otherFound.bind stringContent? = found.bind stringContent? := by
  cases corresponds with
  | none => rfl
  | some commented => exact commented.stringContent?_eq

theorem corresponds_head? (nodesCommented : List.Forall₂ Commented nodes others) :
    Corresponds nodes.head? others.head? := by
  cases nodesCommented with
  | nil => exact .none
  | cons commented _ => exact .some commented

theorem corresponds_getLast? (nodesCommented : List.Forall₂ Commented nodes others) :
    Corresponds nodes.getLast? others.getLast? := by
  rw [List.getLast?_eq_head?_reverse, List.getLast?_eq_head?_reverse]
  exact corresponds_head? (List.forall₂_reverse_iff.mpr nodesCommented)

/-- A test that comments fail chooses the same children. -/
theorem CommentedAll.filter {test : Node → Bool}
    (respects : ∀ {node other}, Commented node other → test other = test node)
    (passesOver : ∀ start line text, test (comment start line text) = false) :
    ∀ {nodes others : List Node}, CommentedAll nodes others →
      List.Forall₂ Commented (nodes.filter test) (others.filter test)
  | _, _, .nil => .nil
  | node :: _, other :: _, .cons commented rest => by
    rw [List.filter_cons, List.filter_cons, respects commented]
    split
    · exact .cons commented (CommentedAll.filter respects passesOver rest)
    · exact CommentedAll.filter respects passesOver rest
  | _, _, .insert start line text rest => by
    rw [List.filter_cons, passesOver]
    exact CommentedAll.filter respects passesOver rest

theorem Commented.child? (commented : Commented node other) (role : String) :
    Corresponds (node.child? role) (other.child? role) := by
  unfold Node.child?
  rw [← List.head?_filter, ← List.head?_filter]
  refine corresponds_head? (commented.children.filter (fun {_ _} same => ?_) fun _ _ _ => rfl)
  rw [same.role_eq]

theorem Commented.stringRole?_eq (commented : Commented node other) (role : String) :
    other.stringRole? role = node.stringRole? role :=
  (commented.child? role).bind_stringContent?

theorem Corresponds.bind_stringRole? {found otherFound : Option Node}
    (corresponds : Corresponds found otherFound) (role : String) :
    (otherFound.bind fun node => node.stringRole? role) =
      found.bind fun node => node.stringRole? role := by
  cases corresponds with
  | none => rfl
  | some commented => exact commented.stringRole?_eq role

theorem Commented.namedOfKind (commented : Commented node other)
    {kind : String} (different : kind ≠ commentKind) :
    List.Forall₂ Commented (node.namedChildren.filter fun child => child.kind == kind)
      (other.namedChildren.filter fun child => child.kind == kind) := by
  unfold namedChildren
  rw [List.filter_filter, List.filter_filter]
  refine commented.children.filter (fun {_ _} same => ?_) fun _ _ _ => ?_
  · rw [same.kind_eq, same.named_eq]
  · simp [comment, Node.kind, Ne.symm different]

theorem Commented.importSpecifier?_eq (commented : Commented node other) :
    other.importSpecifier? = node.importSpecifier? := by
  unfold importSpecifier?
  rw [commented.stringRole?_eq]
  have clauses := corresponds_getLast?
    (commented.namedOfKind (show "import_require_clause" ≠ commentKind by decide))
  split
  · rfl
  · exact clauses.bind_stringRole? "source"

/-! ## Mentions -/

/-- The first argument in a list of arguments: comments are passed over. -/
def firstArgument? (arguments : Node) : Option Node :=
  arguments.children.find? fun child => child.named && child.kind != commentKind

/-- The specifier that a call mentions, and how, when its first argument is chosen in some way. -/
def callMention? (first? : Node → Option Node) (call : Node) : Option (String × ImportKind) := do
  let callee ← call.child? "function"
  let arguments ← call.child? "arguments"
  let specifier ← (first? arguments).bind stringContent?
  if callee.kind == "import" then return (specifier, .dynamic)
  else if callee.kind == "identifier" && callee.text == "require" then return (specifier, .required)
  else none

/-- The mention of a specifier that a node is when comments are passed over. -/
def mention? (node : Node) : Option (String × ImportKind) :=
  match node.kind with
  | "import_statement" => node.importSpecifier?.map (·, .imported)
  | "export_statement" => (node.stringRole? "source").map (·, .exported)
  | "call_expression" => node.callMention? firstArgument?
  | _ => none

theorem mention?_of_import (isImport : node.kind = "import_statement") :
    node.mention? = node.importSpecifier?.map (·, .imported) := by
  simp [mention?, isImport]

theorem mention?_of_export (isExport : node.kind = "export_statement") :
    node.mention? = (node.stringRole? "source").map (·, .exported) := by
  simp [mention?, isExport]

theorem mention?_of_call (isCall : node.kind = "call_expression") :
    node.mention? = node.callMention? firstArgument? := by
  simp [mention?, isCall]

/-- Whether a comment stands before the first argument of a call. -/
def hides (node : Node) : Bool :=
  node.kind == "call_expression" &&
    ((node.child? "arguments").bind firstNamed?).any fun first => first.kind == commentKind

/-- The specifiers that a tree imports, and how. -/
def importPairs (root : Node) : List (String × ImportKind) :=
  root.imports.map fun found => (found.specifier, found.kind)

/-- What the calls in a tree mention behind a comment. -/
def hiddenMentions (root : Node) : List (String × ImportKind) :=
  root.walk.filterMap fun node => if node.hides then node.mention? else none

theorem firstNamed?_eq (node : Node) : node.firstNamed? = node.children.find? named :=
  List.head?_filter

theorem firstArgument?_of_none {arguments : Node} (none : arguments.firstNamed? = none) :
    arguments.firstArgument? = .none := by
  rw [firstNamed?_eq, List.find?_eq_none] at none
  unfold firstArgument?
  rw [List.find?_eq_none]
  intro child member passes
  exact none child member (by simp_all)

theorem firstArgument?_of_some {arguments first : Node} (found : arguments.firstNamed? = some first)
    (noComment : first.kind ≠ commentKind) :
    arguments.firstArgument? = some first := by
  rw [firstNamed?_eq, List.find?_eq_some_iff_append] at found
  obtain ⟨named, before, after, equal, tokens⟩ := found
  unfold firstArgument?
  rw [List.find?_eq_some_iff_append]
  refine ⟨by simp [named, noComment], before, after, equal, fun child member => ?_⟩
  have token := tokens child member
  simp_all

theorem stringContent?_of_comment (isComment : node.kind = commentKind) :
    node.stringContent? = none := by
  unfold stringContent?
  rw [isComment]
  rfl

theorem callImport?_eq_callMention? (call : Node) :
    call.callImport? = call.callMention? firstNamed? :=
  rfl

/-- A call imports what it mentions, unless a comment stands before its first argument. -/
theorem callImport?_eq {call : Node} (isCall : call.kind = "call_expression") :
    call.callImport? = if call.hides then none else call.callMention? firstArgument? := by
  rw [callImport?_eq_callMention?]
  unfold callMention? hides
  rw [isCall]
  cases call.child? "function" with
  | none => simp
  | some callee =>
    cases call.child? "arguments" with
    | none => simp
    | some arguments =>
      cases found : arguments.firstNamed? with
      | none => simp [found, firstArgument?_of_none found]
      | some first =>
        by_cases isComment : first.kind = commentKind
        · simp [found, isComment, stringContent?_of_comment isComment]
        · simp [found, isComment, firstArgument?_of_some found isComment]

theorem hides_eq_false (noCall : node.kind ≠ "call_expression") :
    node.hides = false := by
  simp [hides, noCall]

theorem hides_iff :
    node.hides = true ↔ node.kind = "call_expression" ∧ ∃ arguments first,
      node.child? "arguments" = some arguments ∧ arguments.firstNamed? = some first ∧
        first.kind = commentKind := by
  simp only [hides, Bool.and_eq_true, beq_iff_eq, Option.any_eq_true, Option.bind_eq_some_iff]
  constructor
  · rintro ⟨isCall, first, ⟨arguments, found, firstFound⟩, isComment⟩
    exact ⟨isCall, arguments, first, found, firstFound, isComment⟩
  · rintro ⟨isCall, arguments, first, found, firstFound, isComment⟩
    exact ⟨isCall, first, ⟨arguments, found, firstFound⟩, isComment⟩

/-- What is imported is what is mentioned without a comment before it. -/
theorem importRef?_eq (node : Node) :
    (node.importRef?.map fun found => (found.specifier, found.kind)) =
      if node.hides then none else node.mention? := by
  unfold importRef?
  split
  · rename_i isImport
    rw [hides_eq_false (by rw [isImport]; decide), mention?_of_import isImport]
    simp [Function.comp_def]
  · rename_i isExport
    rw [hides_eq_false (by rw [isExport]; decide), mention?_of_export isExport]
    simp [Function.comp_def]
  · rename_i isCall
    rw [callImport?_eq isCall, mention?_of_call isCall, Option.map_map]
    cases node.hides <;> simp [Function.comp_def]
  · rename_i noImport noExport noCall
    rw [hides_eq_false noCall]
    simp only [Bool.false_eq_true, if_false, Option.map_none]
    unfold mention?
    split
    · exact absurd ‹_› noImport
    · exact absurd ‹_› noExport
    · exact absurd ‹_› noCall
    · rfl

theorem importPairs_eq (root : Node) :
    root.importPairs =
      root.walk.filterMap fun node => if node.hides then none else node.mention? := by
  unfold importPairs imports
  rw [List.map_filterMap]
  congr 1
  funext node
  exact importRef?_eq node

/-! ## Inserting comments keeps mentions -/

theorem Commented.callee_eq {callee otherCallee : Node} (commented : Commented callee otherCallee) :
    (otherCallee.kind == "identifier" && otherCallee.text == "require") =
      (callee.kind == "identifier" && callee.text == "require") := by
  rw [commented.kind_eq]
  by_cases isName : callee.kind = "identifier"
  · rw [commented.text_eq (.inr isName)]
  · rw [beq_false_of_ne isName, Bool.false_and, Bool.false_and]

theorem Commented.firstArgument? {arguments otherArguments : Node}
    (commented : Commented arguments otherArguments) :
    Corresponds arguments.firstArgument? otherArguments.firstArgument? := by
  unfold Node.firstArgument?
  rw [← List.head?_filter, ← List.head?_filter]
  refine corresponds_head? (commented.children.filter (fun {_ _} same => ?_) fun _ _ _ => rfl)
  rw [same.named_eq, same.kind_eq]

/-- With the first argument as it is, comments change no call that imports. -/
theorem Commented.callMention?_eq (commented : Commented node other) :
    other.callMention? Node.firstArgument? = node.callMention? Node.firstArgument? := by
  unfold callMention?
  have callees := commented.child? "function"
  have lists := commented.child? "arguments"
  generalize node.child? "function" = callee, other.child? "function" = otherCallee at callees ⊢
  generalize node.child? "arguments" = arguments, other.child? "arguments" = otherArguments
    at lists ⊢
  cases callees with
  | none => rfl
  | some calleeCommented =>
    cases lists with
    | none => rfl
    | some argumentsCommented =>
      have first := argumentsCommented.firstArgument?.bind_stringContent?
      simp only [Option.bind_eq_bind, Option.bind_some, first]
      rw [calleeCommented.callee_eq, calleeCommented.kind_eq]

theorem Commented.mention?_eq (commented : Commented node other) :
    other.mention? = node.mention? := by
  unfold mention?
  rw [commented.kind_eq, commented.importSpecifier?_eq, commented.stringRole?_eq,
    commented.callMention?_eq]

/-- A comment that stands before all else but tokens stays a comment, or another one comes before
it. -/
theorem CommentedAll.first_comment :
    ∀ {nodes others : List Node}, CommentedAll nodes others →
      ∀ {first : Node}, nodes.find? named = some first → first.kind = commentKind →
        ∃ otherFirst, others.find? named = some otherFirst ∧ otherFirst.kind = commentKind
  | _, _, .nil, first, found, _ => by
    cases found
  | node :: _, other :: _, .cons commented rest, first, found, isComment => by
    rw [List.find?_cons] at found ⊢
    rw [commented.named_eq]
    cases isNamed : node.named with
    | true =>
      simp only [isNamed, Option.some.injEq] at found
      subst found
      exact ⟨other, rfl, commented.kind_eq.trans isComment⟩
    | false =>
      simp only [isNamed] at found
      exact rest.first_comment found isComment
  | _, _, .insert start line text _, _, _, _ => ⟨comment start line text, rfl, rfl⟩

/-- A comment before the first argument of a call stays there. -/
theorem Commented.hides (commented : Commented node other) (hidden : node.hides = true) :
    other.hides = true := by
  obtain ⟨isCall, arguments, first, found, firstFound, isComment⟩ := hides_iff.mp hidden
  have lists := commented.child? "arguments"
  rw [found] at lists
  obtain ⟨otherArguments, otherFound, argumentsCommented⟩ := lists.exists_of_some
  rw [firstNamed?_eq] at firstFound
  obtain ⟨otherFirst, otherFirstFound, otherIsComment⟩ :=
    argumentsCommented.children.first_comment firstFound isComment
  rw [← firstNamed?_eq] at otherFirstFound
  exact hides_iff.mpr ⟨commented.kind_eq.trans isCall, otherArguments, otherFirst, otherFound,
    otherFirstFound, otherIsComment⟩

/-! ## Walking a tree with comments -/

theorem CommentedAll.append {before otherBefore after otherAfter : List Node} :
    CommentedAll before otherBefore → CommentedAll after otherAfter →
      CommentedAll (before ++ after) (otherBefore ++ otherAfter)
  | .nil, rest => rest
  | .cons commented before, rest => .cons commented (before.append rest)
  | .insert start line text before, rest => .insert start line text (before.append rest)

mutual

/-- A walk of a tree with comments comes by the same nodes and by the comments. -/
theorem Commented.walk {node other : Node} : Commented node other →
    CommentedAll node.walk other.walk
  | .mk kept children => by
    rw [Node.walk, Node.walk]
    exact .cons (.mk kept children) children.walkAll

theorem CommentedAll.walkAll {nodes others : List Node} : CommentedAll nodes others →
    CommentedAll (Node.walkAll nodes) (Node.walkAll others)
  | .nil => .nil
  | .cons commented rest => by
    rw [Node.walkAll, Node.walkAll]
    exact commented.walk.append rest.walkAll
  | .insert start line text rest => by
    rw [Node.walkAll]
    exact .insert start line text rest.walkAll

end

/-- The nodes of a tree apart from comments. -/
def code (root : Node) : List Node :=
  root.walk.filter fun node => node.kind != commentKind

/-- Apart from comments a walk of a tree with comments comes by the same nodes. -/
theorem Commented.code (commented : Commented node other) :
    List.Forall₂ Commented node.code other.code := by
  refine commented.walk.filter (fun {_ _} same => ?_) fun _ _ _ => rfl
  rw [same.kind_eq]

/-- What comments give nothing to is read off the other nodes. -/
theorem filterMap_code {α : Type} {choose : Node → Option α}
    (passesOver : ∀ node, node.kind = commentKind → choose node = none) (root : Node) :
    root.code.filterMap choose = root.walk.filterMap choose := by
  unfold code
  rw [List.filterMap_filter]
  congr 1
  funext node
  by_cases isComment : node.kind = commentKind
  · simp [isComment, passesOver node isComment]
  · simp [isComment]

/-- Where single nodes keep what they give or lose it, lists of nodes give no more than before. -/
theorem sublist_filterMap_of_forall₂
    {α : Type} {choose : Node → Option α} {related : Node → Node → Prop}
    (loses : ∀ node other, related node other → choose other = choose node ∨ choose other = none)
    (pairs : List.Forall₂ related nodes others) :
    (others.filterMap choose).Sublist (nodes.filterMap choose) := by
  induction pairs with
  | nil => exact List.Sublist.slnil
  | @cons node other rest others same _ ih =>
    rw [List.filterMap_cons, List.filterMap_cons]
    rcases loses node other same with kept | lost
    · rw [kept]
      cases choose node with
      | none => exact ih
      | some value => exact ih.cons_cons value
    · rw [lost]
      cases choose node with
      | none => exact ih
      | some value => exact ih.cons value

theorem mention?_of_comment (isComment : node.kind = commentKind) :
    node.mention? = none := by
  simp [mention?, isComment, commentKind]

/-- What a tree mentions, whether or not it is hidden. -/
def mentions (root : Node) : List (String × ImportKind) :=
  root.walk.filterMap mention?

/-- Comments never change what a tree mentions. -/
theorem Commented.mentions_eq (commented : Commented node other) :
    other.mentions = node.mentions := by
  have passesOver : ∀ node : Node, node.kind = commentKind → node.mention? = none :=
    fun _ => mention?_of_comment
  unfold mentions
  rw [← filterMap_code passesOver, ← filterMap_code passesOver]
  have lost := sublist_filterMap_of_forall₂ (fun _ _ same => .inl same.mention?_eq) commented.code
  have gained := sublist_filterMap_of_forall₂ (fun _ _ same => .inl (Eq.symm same.mention?_eq))
    commented.code.flip
  exact lost.antisymm gained

/-- Comments never add to what a tree imports. -/
theorem Commented.importPairs_sublist (commented : Commented node other) :
    other.importPairs.Sublist node.importPairs := by
  have passesOver : ∀ node : Node, node.kind = commentKind →
      (if node.hides then none else node.mention?) = none := by
    intro node isComment
    rw [mention?_of_comment isComment, ite_self]
  rw [importPairs_eq, importPairs_eq, ← filterMap_code passesOver, ← filterMap_code passesOver]
  refine sublist_filterMap_of_forall₂ (fun node other same => ?_) commented.code
  rw [same.mention?_eq]
  cases hidden : node.hides with
  | true =>
    rw [same.hides hidden]
    exact .inl rfl
  | false =>
    cases other.hides with
    | true => exact .inr rfl
    | false => exact .inl rfl

/-- What is hidden stays hidden when comments are added. -/
theorem Commented.hiddenMentions_sublist (commented : Commented node other) :
    node.hiddenMentions.Sublist other.hiddenMentions := by
  have passesOver : ∀ node : Node, node.kind = commentKind →
      (if node.hides then node.mention? else none) = none := by
    intro node isComment
    rw [mention?_of_comment isComment, ite_self]
  unfold hiddenMentions
  rw [← filterMap_code passesOver, ← filterMap_code passesOver]
  refine sublist_filterMap_of_forall₂ (fun other node same => ?_) commented.code.flip
  have commentedNode : Commented node other := same
  rw [commentedNode.mention?_eq]
  cases hidden : node.hides with
  | true =>
    rw [commentedNode.hides hidden]
    exact .inl rfl
  | false => exact .inr rfl

/-- Each mention is imported or hidden. -/
theorem length_importPairs_add (root : Node) :
    root.importPairs.length + root.hiddenMentions.length = root.mentions.length := by
  rw [importPairs_eq, hiddenMentions, mentions]
  induction root.walk with
  | nil => rfl
  | cons node rest ih =>
    rw [List.filterMap_cons, List.filterMap_cons, List.filterMap_cons]
    cases node.hides <;> cases node.mention? <;> simp <;> omega

/-- Comments change what a tree imports exactly when they hide a mention. -/
theorem Commented.importPairs_eq_iff (commented : Commented node other) :
    other.importPairs = node.importPairs ↔ other.hiddenMentions = node.hiddenMentions := by
  have before := length_importPairs_add node
  have after := length_importPairs_add other
  rw [commented.mentions_eq] at after
  constructor
  · intro same
    rw [same] at after
    exact (commented.hiddenMentions_sublist.eq_of_length (by omega)).symm
  · intro same
    rw [same] at after
    exact commented.importPairs_sublist.eq_of_length (by omega)

end Node
end ModuleAtlas
