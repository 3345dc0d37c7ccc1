import ModuleAtlas.Proofs.Listwise
import ModuleAtlas.Proofs.Shape.Budget
import ModuleAtlas.Proofs.Text.Quoted
import ModuleAtlas.Catalogue

/-!
# String literals in declarations

A string literal that is written as a type is shown as it is written, with its white space
collapsed. One that a constant holds is put in double quotes besides.  So the text that is shown has
the value of the literal if nothing is collapsed and no double quote becomes a bare one.
-/

namespace ModuleAtlas

namespace Types

/-- A node that is read as a string literal: the literal as a type or inside of something that only
wraps a type, or as the value of a constant. -/
inductive IsLiteral (text : String) : Reading → Node → Prop where
  | literalType {node : Node} (kind : node.kind = "literal_type") (same : node.text = text) :
      IsLiteral text .type node
  | stringType {node : Node} (kind : node.kind = "string") (same : node.text = text) :
      IsLiteral text .type node
  | wrapped {node inner : Node} (wraps : node.kind ∈ wrapperKinds)
      (inside : node.lastNamed? = some inner) (literal : IsLiteral text .type inner) :
      IsLiteral text .type node
  | value {node : Node} (kind : node.kind = "string") (same : node.text = text) :
      IsLiteral text (.value true) node
  | enclosed {node inner : Node}
      (encloses : node.kind ∈
        ["satisfies_expression", "parenthesized_expression", "non_null_expression"])
      (inside : node.firstNamed? = some inner) (literal : IsLiteral text (.value true) inner) :
      IsLiteral text (.value true) node
  | asserted {node inner : Node} {rest : List Node} (kind : node.kind = "as_expression")
      (constant : node.hasChild "const" = true) (inside : node.namedChildren = inner :: rest)
      (literal : IsLiteral text (.value true) inner) :
      IsLiteral text (.value true) node

/-- The text of a string literal in the type that is read. -/
def literalCode (text : String) : Reading → String
  | .type => text
  | .value _ => "\"" ++ Text.inner text ++ "\""

theorem height_lt_of_mem {node child : Node} (member : child ∈ node.namedChildren) :
    height child < height node := by
  have below : ∀ {children : List Node}, child ∈ children → height child ≤ heights children := by
    intro children member
    induction children with
    | nil => cases member
    | cons first rest ih =>
      rw [heights]
      rcases List.mem_cons.mp member with rfl | later
      · exact Nat.le_max_left _ _
      · exact Nat.le_trans (ih later) (Nat.le_max_right _ _)
  obtain ⟨kind, named, role, start, line, text, children⟩ := node
  rw [height]
  exact Nat.lt_succ_of_le (below (List.mem_filter.mp member).1)

variable {text : String} {units : List Nat} {reading : Reading} {node : Node}

theorem exists_fuel {fuel : Nat} (enough : height node ≤ fuel) : ∃ less, fuel = less + 1 := by
  have positive : 0 < height node := by
    cases node
    exact Nat.succ_pos _
  exact ⟨fuel - 1, by omega⟩

/-- Whether a text starts with a quote. -/
def startsQuoted (text : String) : Bool := text.toList.head?.any fun c => c == '"' || c == '\''

theorem startsQuoted_of_literal (known : Text.literalValue? text.toList = some units) :
    startsQuoted text = true := by
  obtain ⟨quote, body, same, isQuote, -⟩ := Text.literalValue?_eq_some_iff.mp known
  rw [startsQuoted, same]
  simpa using isQuote

/-- What starts with a quote is none of the names that are known. -/
theorem notMem_names (quoted : startsQuoted text = true) :
    text ∉ primitiveNames ∧ text ∉ builtinNames := by
  have names : ∀ name ∈ primitiveNames ++ builtinNames, startsQuoted name = false := by decide
  constructor
  all_goals
    intro member
    have unquoted := names text (by simp [member])
    rw [quoted] at unquoted
    cases unquoted

/-- A literal is read as the code of its value, in every scope. -/
theorem readWith_of_isLiteral (known : Text.literalValue? text.toList = some units)
    (literal : IsLiteral text reading node)
    (scope : Scope TypeTerm) {fuel : Nat} (enough : height node ≤ fuel) :
    readWith scope fuel reading node = pure (.literal (literalCode text reading)) := by
  have notName := (notMem_names (startsQuoted_of_literal known)).1
  have notNull : text ≠ "null" ∧ text ≠ "undefined" := by
    constructor
    all_goals
      rintro rfl
      exact notName (by decide)
  induction literal generalizing fuel with
  | literalType kind same =>
    obtain ⟨fuel, rfl⟩ := exists_fuel enough
    subst same
    rw [readWith, ofAnnotated]
    simp [kind, notNull, literalCode]
  | stringType kind same =>
    obtain ⟨fuel, rfl⟩ := exists_fuel enough
    subst same
    rw [readWith, ofAnnotated]
    simp [kind, literalCode]
  | @wrapped node inner wraps inside _ ih =>
    obtain ⟨fuel, rfl⟩ := exists_fuel enough
    have below := height_lt_of_mem (List.mem_of_getLast? inside)
    have read : readWith scope fuel .type inner = pure (.literal (literalCode text .type)) :=
      ih (by omega)
    rw [readWith, ofAnnotated]
    simp only [wrapperKinds, List.mem_cons, List.not_mem_nil, or_false] at wraps
    rcases wraps with kind | kind | kind | kind | kind | kind | kind | kind <;>
      simp only [kind, inside, read]
  | value kind same =>
    obtain ⟨fuel, rfl⟩ := exists_fuel enough
    subst same
    rw [readWith, ofValue]
    simp [kind, literalCode]
  | @enclosed node inner encloses inside _ ih =>
    obtain ⟨fuel, rfl⟩ := exists_fuel enough
    have below := height_lt_of_mem (List.mem_of_head? inside)
    have read : readWith scope fuel (.value true) inner =
        pure (.literal (literalCode text (.value true))) :=
      ih (by omega)
    rw [readWith, ofValue]
    simp only [List.mem_cons, List.not_mem_nil, or_false] at encloses
    rcases encloses with kind | kind | kind <;> simp only [kind, inside, read]
  | @asserted node inner rest kind constant inside _ ih =>
    obtain ⟨fuel, rfl⟩ := exists_fuel enough
    have member : inner ∈ node.namedChildren := by rw [inside]; exact List.mem_cons_self
    have below := height_lt_of_mem member
    have read : readWith scope fuel (.value true) inner =
        pure (.literal (literalCode text (.value true))) :=
      ih (by omega)
    rw [readWith, ofValue]
    simp only [kind, ofAssertion, inside, constant, if_true, read]

/-- A string literal is read as a literal type. -/
theorem readerFor_of_isLiteral (known : Text.literalValue? text.toList = some units)
    (literal : IsLiteral text reading node) (scope : Scope TypeTerm) :
    readerFor scope node reading node = pure (.literal (literalCode text reading)) :=
  readWith_of_isLiteral known literal scope (Nat.le_refl _)

/-- The text that a string literal is shown by. -/
def shownLiteral (text : String) (reading : Reading) : String :=
  Text.collapse (literalCode text reading)

/-- Whether a string literal keeps its value: white space is only single spaces, and no double quote
stands bare between the quotes of a value. -/
def KeepsValue (text : String) : Reading → Prop
  | .type => Text.collapse text = text
  | .value _ =>
    Text.collapse text = text ∧ Text.holdsBare '"' false text.toList.tail.dropLast = false

theorem toList_shownLiteral (reading : Reading) :
    (shownLiteral text reading).toList =
      match reading with
      | .type => Text.collapseChars text.toList
      | .value _ => Text.collapseChars (Text.inDoubleQuotes text.toList) := by
  cases reading with
  | type => rw [shownLiteral, literalCode, Text.collapse, String.toList_ofList]
  | value constant =>
    rw [shownLiteral, literalCode, Text.collapse, String.toList_ofList, Text.inDoubleQuotes,
      Text.inner]
    simp

theorem collapse_eq_iff :
    Text.collapse text = text ↔ Text.collapseChars text.toList = text.toList := by
  rw [Text.collapse, ← String.toList_inj, String.toList_ofList]

/-- The text that a literal is shown by has its value if it is one that keeps it. -/
theorem literalValue?_shownLiteral
    (known : Text.literalValue? text.toList = some units) (keeps : KeepsValue text reading) :
    Text.literalValue? (shownLiteral text reading).toList = some units := by
  rw [toList_shownLiteral]
  cases reading with
  | type => exact (congrArg Text.literalValue? (collapse_eq_iff.mp keeps)).trans known
  | value constant => exact Text.literalValue?_requoted known (collapse_eq_iff.mp keeps.1) keeps.2

theorem startsQuoted_shownLiteral (known : Text.literalValue? text.toList = some units) :
    startsQuoted (shownLiteral text reading) = true := by
  obtain ⟨quote, body, same, isQuote, -⟩ := Text.literalValue?_eq_some_iff.mp known
  rw [startsQuoted, toList_shownLiteral, same]
  cases reading with
  | type =>
    dsimp only
    rw [Text.collapseChars_quoted isQuote]
    simpa using isQuote
  | value constant =>
    dsimp only
    rw [Text.inDoubleQuotes, Text.collapseChars_quoted (.inl rfl)]
    rfl

/-- On one line no other literal is shown by a text with its value. -/
theorem keepsValue_of_shownLiteral (known : Text.literalValue? text.toList = some units)
    (inLine : ∀ c ∈ text.toList, Text.isTerminator c = false)
    (kept : Text.literalValue? (shownLiteral text reading).toList = some units) :
    KeepsValue text reading := by
  rw [toList_shownLiteral] at kept
  cases reading with
  | type => exact collapse_eq_iff.mpr (Text.settled_of_collapsed known inLine kept)
  | value constant =>
    obtain ⟨settled, free⟩ := Text.settled_of_requoted known inLine kept
    exact ⟨collapse_eq_iff.mpr settled, free⟩

end Types

namespace Simplifier

open ModuleAtlas.Types

variable (simplifier : Simplifier) {code : String}

/-- A literal is shown as its code, or by its name where it has been met before. -/
theorem shapeAt_literal (quoted : startsQuoted (Text.collapse code) = true) (levels : Nat)
    (visited : List String) :
    simplifier.shapeAt (levels + 1) visited (.literal code) =
      if decide (0 < simplifier.depth (levels + 1)) && visited.contains (Text.collapse code) then
        liftM (simplifier.nameOf (.literal code) (Text.collapse code))
      else if Shape.isLiteralText (Text.collapse code) then pure (.literal (Text.collapse code))
      else (do
        if ← Expansion.spend then pure (.literal (Text.collapse code))
        else liftM (simplifier.nameOf (.literal code) (Text.collapse code)) : Expansion Shape) := by
  obtain ⟨notPrimitive, notBuiltin⟩ := notMem_names quoted
  have noName : (primitiveNames.contains (Text.collapse code) ||
      builtinNames.contains (Text.collapse code)) = false := by
    simp [notPrimitive, notBuiltin]
  rw [shapeAt]
  simp only [TypeTerm.text, noName]
  rfl

/-- At the top a literal type is shown as a literal, with its text. -/
theorem simplify_literal (quoted : startsQuoted (Text.collapse code) = true)
    (deep : 0 < simplifier.settings.maxDepth) (many : 0 < simplifier.settings.maxNodes) :
    simplifier.simplify 0 [] (.literal code) = pure (.literal (Text.collapse code)) := by
  obtain ⟨levels, enough⟩ : ∃ levels, simplifier.levelsAt 0 = levels + 1 :=
    ⟨simplifier.levelsAt 0 - 1, by unfold levelsAt; omega⟩
  obtain ⟨left, some⟩ : ∃ left, simplifier.expansions = left + 1 :=
    ⟨simplifier.expansions - 1, by unfold expansions; omega⟩
  rw [simplify, enough, shapeAt_literal simplifier quoted, some]
  simp only [List.contains_nil, Bool.and_false]
  split
  · contradiction
  · split <;> rfl

/-- Wherever a literal type is shown as a literal, it is shown with its text. -/
theorem returns_shapeAt_literal
    (quoted : startsQuoted (Text.collapse code) = true) (levels : Nat) (visited : List String) :
    Expansion.Returns (simplifier.shapeAt levels visited (.literal code)) fun shape =>
      ∀ shown, shape = .literal shown → shown = Text.collapse code := by
  have named : Expansion.Returns
      (liftM (simplifier.nameOf (.literal code) (Text.collapse code)) : Expansion Shape)
      fun shape =>
        ∀ shown, shape = .literal shown → shown = Text.collapse code := by
    refine (simplifier.relates_nameOf _ _).mono ?_
    rintro _ _ _ ⟨-, name, rfl⟩
    exact nofun
  have alone : Expansion.Returns (pure (.literal (Text.collapse code)) : Expansion Shape)
      fun shape =>
      ∀ shown, shape = .literal shown → shown = Text.collapse code := by
    refine Expansion.returns_pure fun shown same => ?_
    cases same
    rfl
  cases levels with
  | zero => exact Expansion.returns_pure nofun
  | succ levels =>
    rw [shapeAt_literal simplifier quoted]
    split
    · exact named
    split
    · exact alone
    · refine (Expansion.returns_any _).bind fun granted _ => ?_
      cases granted with
      | true => exact alone
      | false => exact named

end Simplifier

namespace Catalogue

open ModuleAtlas.Types

/-- A declaration of a variable whose type is a string literal: written as a type, or without a
type the value of a constant. -/
inductive GivesLiteral (text : String) (declaration : Declaration) : Reading → Prop where
  | annotated {written : Node} (type : declaration.node.child? "type" = some written)
      (literal : IsLiteral text .type written) :
      GivesLiteral text declaration .type
  | inferred {value : Node} (noType : declaration.node.child? "type" = none)
      (given : declaration.node.child? "value" = some value)
      (constant : isConstant declaration = true) (literal : IsLiteral text (.value true) value) :
      GivesLiteral text declaration (.value true)

variable {text : String} {units : List Nat} {reading : Reading}

/-- The type of such a variable. -/
theorem declarationType_of_givesLiteral (known : Text.literalValue? text.toList = some units)
    {declaration : Declaration} (kind : declaration.node.kind = "variable_declarator")
    (gives : GivesLiteral text declaration reading) (source : SourceModule) :
    declarationType declaration source = pure (.literal (literalCode text reading)) := by
  have noType : Declaration.typeKinds.contains "variable_declarator" = false := by decide
  rw [declarationType]
  simp only [kind, noType, beq_self_eq_true, if_true]
  cases gives with
  | annotated type literal =>
    simp only [variableType, type]
    exact readerFor_of_isLiteral known literal _
  | inferred noType given constant literal =>
    simp only [variableType, noType, given, constant]
    exact readerFor_of_isLiteral known literal _

/-- A variable whose type is a string literal is described by the text of the literal, which the
cleaning of type texts may change where it stands in the declaration. -/
theorem describe_of_givesLiteral (known : Text.literalValue? text.toList = some units)
    {declaration : Declaration} (kind : declaration.node.kind = "variable_declarator")
    (gives : GivesLiteral text declaration reading) (source : SourceModule)
    {simplifier : Simplifier} (deep : 0 < simplifier.settings.maxDepth)
    (many : 0 < simplifier.settings.maxNodes) {printed : String}
    (cleaned : simplifier.cleaner.clean (shownLiteral text reading) = .ok printed) :
    describe simplifier declaration source =
      pure (.ok ⟨keyword declaration ++ " " ++ declaration.name ++ ": " ++ printed,
        .literal (shownLiteral text reading)⟩) := by
  have type := declarationType_of_givesLiteral known kind gives source
  have noFunction : functionKinds.contains "variable_declarator" = false := by decide
  have shape : declarationShape simplifier declaration source =
      pure (.literal (shownLiteral text reading)) := by
    rw [declarationShape]
    simp only [kind, noFunction, type, pure_bind]
    exact simplifier.simplify_literal (startsQuoted_shownLiteral known) deep many
  have ran : simplifier.clean (Text.collapse (literalCode text reading)) = pure printed := by
    rw [shownLiteral] at cleaned
    rw [Simplifier.clean, cleaned]
  have printedText : declarationText simplifier declaration source =
      pure (keyword declaration ++ " " ++ declaration.name ++ ": " ++ printed) := by
    rw [declarationText]
    simp only [kind, noFunction, type, pure_bind, beq_self_eq_true, if_true, TypeTerm.text, ran]
    rfl
  have told : tell simplifier declaration source = pure
      ⟨keyword declaration ++ " " ++ declaration.name ++ ": " ++ printed,
        .literal (shownLiteral text reading)⟩ := by
    rw [tell, shape, printedText]
    rfl
  rw [describe, describeOn, bounded_ample_telling, told]
  rfl

/-- A string literal, written as a type or held by a constant, is shown by a text with its value,
in the shape of its type as well as in a declaration that the cleaning of texts leaves as it is, if
white space in it is only single spaces and no bare double quote gets into double quotes; of the
literals on one line no others keep their value.  So two such literals with different values are
never shown by one text. -/
theorem literals_keep_value
    {text : String} {units : List Nat} (known : Text.literalValue? text.toList = some units)
    (reading : Reading) (simplifier : Simplifier) :
    (∀ (scope : Scope TypeTerm) (node : Node), IsLiteral text reading node →
      ∃ type, readerFor scope node reading node = pure type ∧
        type.text = shownLiteral text reading ∧
        (∀ levels visited, Expansion.Returns (simplifier.shapeAt levels visited type) fun shape =>
          ∀ shown, shape = .literal shown → shown = shownLiteral text reading) ∧
        (0 < simplifier.settings.maxDepth → 0 < simplifier.settings.maxNodes →
          simplifier.simplify 0 [] type = pure (.literal (shownLiteral text reading)))) ∧
    (∀ (declaration : Declaration) (source : SourceModule),
      declaration.node.kind = "variable_declarator" → GivesLiteral text declaration reading →
      0 < simplifier.settings.maxDepth → 0 < simplifier.settings.maxNodes →
      simplifier.cleaner.clean (shownLiteral text reading) = .ok (shownLiteral text reading) →
      describe simplifier declaration source =
        pure (.ok ⟨keyword declaration ++ " " ++ declaration.name ++ ": "
          ++ shownLiteral text reading, .literal (shownLiteral text reading)⟩)) ∧
    (KeepsValue text reading →
      Text.literalValue? (shownLiteral text reading).toList = some units) ∧
    ((∀ c ∈ text.toList, Text.isTerminator c = false) →
      Text.literalValue? (shownLiteral text reading).toList = some units →
        KeepsValue text reading) ∧
    (∀ (other : String) (otherUnits : List Nat) (otherReading : Reading),
      Text.literalValue? other.toList = some otherUnits →
      KeepsValue text reading → KeepsValue other otherReading →
      shownLiteral text reading = shownLiteral other otherReading → units = otherUnits) := by
  have quoted : startsQuoted (shownLiteral text reading) = true :=
    startsQuoted_shownLiteral known
  refine ⟨fun scope node literal => ?_, ?_, literalValue?_shownLiteral known,
    keepsValue_of_shownLiteral known, ?_⟩
  · exact ⟨_, readerFor_of_isLiteral known literal scope, by rw [TypeTerm.text, shownLiteral],
      simplifier.returns_shapeAt_literal quoted, simplifier.simplify_literal quoted⟩
  · intro declaration source kind gives deep many cleaned
    exact describe_of_givesLiteral known kind gives source deep many cleaned
  · intro other otherUnits otherReading otherKnown keeps otherKeeps same
    have value := literalValue?_shownLiteral known keeps
    rw [same, literalValue?_shownLiteral otherKnown otherKeeps] at value
    exact (Option.some.inj value).symm

/-- The declaration of a constant with a string as its value. -/
def wordConstant (name text : String) : Declaration where
  name := name
  kind := "variable"
  node := .mk "variable_declarator" true none 0 1 "" [
    .mk "identifier" true (some "name") 0 1 name [],
    .mk "string" true (some "value") 0 1 text []]
  exported := true
  statement := none
  group := some (.mk "lexical_declaration" true none 0 1 "" [
    .mk "const" false (some "kind") 0 1 "const" []])

theorem givesLiteral_wordConstant (name text : String) :
    GivesLiteral text (wordConstant name text) (.value true) :=
  .inferred rfl rfl rfl (.value rfl rfl)

/-- An escaped apostrophe keeps its value in double quotes. -/
theorem apostrophe_keeps_value :
    describe (.ofSettings .default) (wordConstant "note" "'it\\'s'") default =
        pure (.ok ⟨"const note: \"it\\'s\"", .literal "\"it\\'s\""⟩) ∧
      Text.literalValue? "\"it\\'s\"".toList = Text.literalValue? "'it\\'s'".toList := by
  have known : Text.literalValue? "'it\\'s'".toList = some [105, 116, 39, 115] := by decide
  have keeps : KeepsValue "'it\\'s'" (.value true) := ⟨by decide, by decide⟩
  have cleaned : (Simplifier.ofSettings .default).cleaner.clean
      (shownLiteral "'it\\'s'" (.value true)) = .ok (shownLiteral "'it\\'s'" (.value true)) :=
    eq_ok_of_toOption (by decide +kernel)
  obtain ⟨-, described, value, -⟩ :=
    literals_keep_value known (.value true) (.ofSettings .default)
  exact ⟨described (wordConstant "note" "'it\\'s'") default rfl
    (givesLiteral_wordConstant "note" _) (by decide) (by decide) cleaned,
    (value keeps).trans known.symm⟩

/-- Constants with different values are shown alike where they differ in the number of spaces only,
and double quotes make a text that is no literal. -/
theorem spaces_and_quotes_lose_value :
    (describe (.ofSettings .default) (wordConstant "text" "'a  b'") default =
        describe (.ofSettings .default) (wordConstant "text" "'a b'") default ∧
      Text.literalValue? "'a  b'".toList ≠ Text.literalValue? "'a b'".toList) ∧
    (describe (.ofSettings .default) (wordConstant "text" "'say \"hi\"'") default =
        pure (.ok ⟨"const text: \"say \"hi\"\"", .literal "\"say \"hi\"\""⟩) ∧
      (Text.literalValue? "'say \"hi\"'".toList).isSome = true ∧
      Text.literalValue? "\"say \"hi\"\"".toList = none) := by
  have shows : ∀ text ∈ ["'a  b'", "'a b'", "'say \"hi\"'"],
      describe (.ofSettings .default) (wordConstant "text" text) default =
        pure (.ok ⟨"const text: " ++ shownLiteral text (.value true),
          .literal (shownLiteral text (.value true))⟩) := by
    have values : ∀ text ∈ ["'a  b'", "'a b'", "'say \"hi\"'"],
        (Text.literalValue? text.toList).isSome = true := by decide
    have cleaned : ∀ text ∈ ["'a  b'", "'a b'", "'say \"hi\"'"],
        ((Simplifier.ofSettings .default).cleaner.clean
          (shownLiteral text (.value true))).toOption = some (shownLiteral text (.value true)) := by
      decide +kernel
    intro text member
    obtain ⟨units, known⟩ := Option.isSome_iff_exists.mp (values text member)
    exact describe_of_givesLiteral known rfl (givesLiteral_wordConstant "text" text) default
      (by decide) (by decide) (eq_ok_of_toOption (cleaned text member))
  refine ⟨⟨?_, by decide⟩, ?_, by decide, by decide⟩
  · rw [shows _ (by simp), shows _ (by simp)]
    rfl
  · rw [shows _ (by simp)]
    rfl

end Catalogue

end ModuleAtlas
