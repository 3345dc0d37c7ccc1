import ModuleAtlas.Types.Term
import ModuleAtlas.Proofs.Types.TextTokens

/-!
# What types are made of

The outline of a type is what it is made of, down to names.  The text of a type holds parentheses
only around the element of an array.  So a union in a union leaves no trace in it.
-/

namespace ModuleAtlas

/-- What a type is made of. The label of a parameter is its name with what stands around it. -/
inductive Outline where
  | name (word : String)
  | array (element : Outline)
  | tuple (elements : List Outline)
  | union (first : Outline) (others : List Outline)
  | intersection (first : Outline) (others : List Outline)
  | function (parameters : List (String × Outline)) (returns : Outline)
deriving Inhabited

namespace Outline

/-- Whether an outline needs parentheses in front of brackets. -/
def needsParentheses : Outline → Bool
  | .union _ _ | .intersection _ _ | .function _ _ => true
  | _ => false

/-! ## Tokens -/

mutual

/-- The tokens of the text of a type, with parentheses only where the element of an array has
them. -/
def tokens : Outline → List Token
  | .name word => [.word word.toList]
  | .array element =>
    (if element.needsParentheses then
      .mark .openParen :: (tokens element ++ [.mark .closeParen]) else tokens element)
      ++ [.mark .openBracket, .mark .closeBracket]
  | .tuple elements =>
    .mark .openBracket :: (listTokens elements ++ [.mark .closeBracket])
  | .union first others => tokens first ++ tokensAfter .bar others
  | .intersection first others => tokens first ++ tokensAfter .ampersand others
  | .function parameters returns =>
    .mark .openParen :: (parameterTokens parameters
      ++ .mark .closeParen :: .mark .equals :: .mark .greater :: tokens returns)

/-- The tokens of outlines with a comma between each two. -/
def listTokens : List Outline → List Token
  | [] => []
  | first :: others => tokens first ++ tokensAfter .comma others

/-- The tokens of outlines, each after a mark. -/
def tokensAfter (mark : Mark) : List Outline → List Token
  | [] => []
  | outline :: rest => .mark mark :: (tokens outline ++ tokensAfter mark rest)

/-- The tokens of parameters with a comma between each two. -/
def parameterTokens : List (String × Outline) → List Token
  | [] => []
  | (label, type) :: rest =>
    .word label.toList :: .mark .colon :: (tokens type ++ parameterTokensAfter rest)

/-- The tokens of parameters, each after a comma. -/
def parameterTokensAfter : List (String × Outline) → List Token
  | [] => []
  | (label, type) :: rest =>
    .mark .comma :: .word label.toList :: .mark .colon :: (tokens type ++ parameterTokensAfter rest)

end

/-- The tokens of a parameter. -/
def ofParameter (parameter : String × Outline) : List Token :=
  .word parameter.1.toList :: .mark .colon :: parameter.2.tokens

/-- Tokens of several things, each after a mark. -/
def each (mark : Mark) (parts : List (List Token)) : List Token :=
  parts.flatMap (.mark mark :: ·)

/-- Tokens of several things with a mark between each two. -/
def joined (mark : Mark) : List (List Token) → List Token
  | [] => []
  | first :: others => first ++ each mark others

theorem tokensAfter_eq (mark : Mark) (outlines : List Outline) :
    tokensAfter mark outlines = each mark (outlines.map tokens) := by
  induction outlines with
  | nil => rfl
  | cons outline rest ih =>
    rw [tokensAfter, ih]
    rfl

theorem parameterTokensAfter_eq (parameters : List (String × Outline)) :
    parameterTokensAfter parameters = each .comma (parameters.map ofParameter) := by
  induction parameters with
  | nil => rfl
  | cons parameter rest ih =>
    obtain ⟨label, type⟩ := parameter
    rw [parameterTokensAfter, ih]
    rfl

theorem listTokens_eq (outlines : List Outline) :
    listTokens outlines = joined .comma (outlines.map tokens) := by
  cases outlines with
  | nil => rfl
  | cons first others => rw [listTokens, tokensAfter_eq, List.map_cons, joined]

theorem parameterTokens_eq (parameters : List (String × Outline)) :
    parameterTokens parameters = joined .comma (parameters.map ofParameter) := by
  cases parameters with
  | nil => rfl
  | cons parameter rest =>
    obtain ⟨label, type⟩ := parameter
    rw [parameterTokens, parameterTokensAfter_eq, List.map_cons, joined]
    rfl

end Outline

/-! ## Joined texts -/

namespace Token

theorem ofText_append {first second : String} (apart : startsWord second.toList = false) :
    ofText (first ++ second) = ofText first ++ ofText second := by
  unfold ofText
  rw [String.toList_append, ofChars_append apart]

/-- A text that stands for a mark between two others. -/
structure Separates (separator : String) (mark : Mark) : Prop where
  apart : ∀ chars, startsWord (separator.toList ++ chars) = false
  tokens : ∀ chars, ofChars (separator.toList ++ chars) = .mark mark :: ofChars chars

theorem Separates.ofText_append {separator : String} {mark : Mark}
    (separates : Separates separator mark) (first second : String) :
    ofText (first ++ (separator ++ second)) = ofText first ++ .mark mark :: ofText second := by
  rw [Token.ofText_append (by
    rw [String.toList_append]
    exact separates.apart _)]
  congr 1
  unfold ofText
  rw [String.toList_append, separates.tokens]

theorem separates_colon : Separates ": " .colon := ⟨fun _ => rfl, fun _ => rfl⟩

theorem separates_bar : Separates " | " .bar := ⟨fun _ => rfl, fun _ => rfl⟩

theorem separates_ampersand : Separates " & " .ampersand := ⟨fun _ => rfl, fun _ => rfl⟩

theorem separates_comma : Separates ", " .comma := ⟨fun _ => rfl, fun _ => rfl⟩

/-- The tokens of texts that are joined by a separator. -/
theorem ofText_join {separator : String} {mark : Mark} (separates : Separates separator mark)
    (pieces : List String) :
    ofText (Text.join separator pieces) = Outline.joined mark (pieces.map ofText) := by
  induction pieces with
  | nil => rfl
  | cons first others ih =>
    unfold Text.join at ih ⊢
    cases others with
    | nil =>
      rw [String.intercalate_singleton]
      exact (List.append_nil _).symm
    | cons second others =>
      rw [String.intercalate_cons_cons, String.append_assoc, separates.ofText_append, ih]
      rfl

/-! ## Enclosed texts -/

theorem ofText_brackets (text : String) :
    ofText ("[" ++ text ++ "]") =
      .mark .openBracket :: (ofText text ++ [.mark .closeBracket]) := by
  rw [ofText_append rfl]
  unfold ofText
  rw [String.toList_append]
  rfl

theorem ofText_parens (text : String) :
    ofText ("(" ++ text ++ ")") = .mark .openParen :: (ofText text ++ [.mark .closeParen]) := by
  rw [ofText_append rfl]
  unfold ofText
  rw [String.toList_append]
  rfl

theorem ofText_arrow (parameters returns : String) :
    ofText ("(" ++ parameters ++ ") => " ++ returns) =
      .mark .openParen :: (ofText parameters ++
        .mark .closeParen :: .mark .equals :: .mark .greater :: ofText returns) := by
  rw [String.append_assoc, ofText_append (by
    rw [String.toList_append]
    rfl)]
  unfold ofText
  rw [String.toList_append, String.toList_append]
  rfl

end Token

/-! ## The outline of a type -/

namespace Outline

/-- The outline of a name. -/
def ofName? (code : String) : Option Outline :=
  if Token.isAtomic code then some (.name code) else none

/-- The outline of one or more members. -/
def ofMembers? (combine : Outline → List Outline → Outline) : List Outline → Option Outline
  | [] => none
  | first :: others => some (combine first others)

end Outline

namespace TypeTerm

mutual

/-- The outline of a type that is built from names. -/
def outline? : TypeTerm → Option Outline
  | .primitive name => Outline.ofName? name
  | .literal value => Outline.ofName? value
  | .verbatim code => Outline.ofName? code
  | .array element => (outline? element).map .array
  | .tuple elements => (outlines? elements).map .tuple
  | .union label members =>
    if label.isEmpty then (outlines? members).bind (Outline.ofMembers? .union) else none
  | .intersection label members =>
    if label.isEmpty then (outlines? members).bind (Outline.ofMembers? .intersection) else none
  | .function label signatures => if label.isEmpty then soleOutline? signatures else none
  | .object _ code _ _ => Outline.ofName? code
  | .reference _ code _ _ _ => Outline.ofName? code

/-- The outlines of types. -/
def outlines? : List TypeTerm → Option (List Outline)
  | [] => some []
  | type :: rest => do return (← outline? type) :: (← outlines? rest)

/-- The outline of a function type with one signature. -/
def soleOutline? : List (Signature TypeTerm) → Option Outline
  | [signature] => signatureOutline? signature
  | _ => none

/-- The outline of a signature. -/
def signatureOutline? : Signature TypeTerm → Option Outline
  | ⟨parameters, returns⟩ => do
    return .function (← parameterOutlines? parameters) (← outline? returns)

/-- The labels and outlines of parameters. -/
def parameterOutlines? : List (Parameter TypeTerm) → Option (List (String × Outline))
  | [] => some []
  | ⟨name, type, isOptional, isRest, _, _⟩ :: rest =>
    let label := parameterLabel name isRest isOptional
    if Token.isAtomic label then do
      return (label, ← outline? type) :: (← parameterOutlines? rest)
    else none

end

/-! ## Built types -/

variable {outline : Outline}

theorem built_name {code : String} (built : Outline.ofName? code = some outline) :
    Token.isAtomic code = true ∧ outline = .name code := by
  unfold Outline.ofName? at built
  split at built
  · rename_i atomic
    exact ⟨atomic, (Option.some.inj built).symm⟩
  · cases built

theorem built_members {combine : Outline → List Outline → Outline}
    {members : Option (List Outline)}
    (built : members.bind (Outline.ofMembers? combine) = some outline) :
    ∃ first others, members = some (first :: others) ∧ outline = combine first others := by
  obtain ⟨_ | ⟨first, others⟩, found, made⟩ := Option.bind_eq_some_iff.mp built
  · cases made
  · exact ⟨first, others, found, (Option.some.inj made).symm⟩

theorem built_union {label : String} {members : List TypeTerm}
    (built : (union label members).outline? = some outline) :
    label.isEmpty = true ∧ ∃ first others, outlines? members = some (first :: others) ∧
      outline = .union first others := by
  rw [outline?] at built
  split at built
  · rename_i unlabelled
    exact ⟨unlabelled, built_members built⟩
  · cases built

theorem built_intersection {label : String} {members : List TypeTerm}
    (built : (intersection label members).outline? = some outline) :
    label.isEmpty = true ∧ ∃ first others, outlines? members = some (first :: others) ∧
      outline = .intersection first others := by
  rw [outline?] at built
  split at built
  · rename_i unlabelled
    exact ⟨unlabelled, built_members built⟩
  · cases built

theorem built_function {label : String} {signatures : List (Signature TypeTerm)}
    (built : (function label signatures).outline? = some outline) :
    label.isEmpty = true ∧ ∃ signature, signatures = [signature] ∧
      signatureOutline? signature = some outline := by
  rw [outline?] at built
  split at built
  · rename_i unlabelled
    unfold soleOutline? at built
    split at built
    · exact ⟨unlabelled, _, rfl, built⟩
    · cases built
  · cases built

theorem built_signature {parameters : List (Parameter TypeTerm)} {returns : TypeTerm}
    (built : signatureOutline? ⟨parameters, returns⟩ = some outline) :
    ∃ labelled result, parameterOutlines? parameters = some labelled ∧
      returns.outline? = some result ∧ outline = .function labelled result := by
  rw [signatureOutline?] at built
  obtain ⟨labelled, found, built⟩ := Option.bind_eq_some_iff.mp built
  obtain ⟨result, foundResult, built⟩ := Option.bind_eq_some_iff.mp built
  exact ⟨labelled, result, found, foundResult, (Option.some.inj built).symm⟩

theorem built_cons {type : TypeTerm} {rest : List TypeTerm} {outlines : List Outline}
    (built : outlines? (type :: rest) = some outlines) :
    ∃ outline others, type.outline? = some outline ∧ outlines? rest = some others ∧
      outlines = outline :: others := by
  rw [outlines?] at built
  obtain ⟨outline, found, built⟩ := Option.bind_eq_some_iff.mp built
  obtain ⟨others, foundOthers, built⟩ := Option.bind_eq_some_iff.mp built
  exact ⟨outline, others, found, foundOthers, (Option.some.inj built).symm⟩

theorem built_parameter {parameter : Parameter TypeTerm} {rest : List (Parameter TypeTerm)}
    {labelled : List (String × Outline)}
    (built : parameterOutlines? (parameter :: rest) = some labelled) :
    Token.isAtomic (parameterLabel parameter.name parameter.isRest parameter.isOptional) = true ∧
    ∃ outline others, parameter.type.outline? = some outline ∧
      parameterOutlines? rest = some others ∧
      labelled =
        (parameterLabel parameter.name parameter.isRest parameter.isOptional, outline) ::
          others := by
  rw [parameterOutlines?] at built
  split at built
  · rename_i atomic
    obtain ⟨outline, found, built⟩ := Option.bind_eq_some_iff.mp built
    obtain ⟨others, foundOthers, built⟩ := Option.bind_eq_some_iff.mp built
    exact ⟨atomic, outline, others, found, foundOthers, (Option.some.inj built).symm⟩
  · cases built

theorem needsParentheses_outline {term : TypeTerm} (built : term.outline? = some outline) :
    outline.needsParentheses = term.needsParentheses := by
  cases term with
  | primitive | literal | verbatim | object | reference =>
    obtain ⟨_, rfl⟩ := built_name built
    rfl
  | array element =>
    obtain ⟨_, _, rfl⟩ := Option.map_eq_some_iff.mp built
    rfl
  | tuple elements =>
    obtain ⟨_, _, rfl⟩ := Option.map_eq_some_iff.mp built
    rfl
  | union label members =>
    obtain ⟨_, _, _, _, rfl⟩ := built_union built
    rfl
  | intersection label members =>
    obtain ⟨_, _, _, _, rfl⟩ := built_intersection built
    rfl
  | function label signatures =>
    obtain ⟨_, ⟨parameters, returns⟩, _, built⟩ := built_function built
    obtain ⟨_, _, _, _, rfl⟩ := built_signature built
    rfl

/-! ## The text of a type -/

theorem ofText_name {code : String} (built : Outline.ofName? code = some outline) :
    Token.ofText (Text.collapse code) = outline.tokens := by
  obtain ⟨atomic, rfl⟩ := built_name built
  rw [Token.ofText_collapse, Token.ofText_of_isAtomic atomic, Outline.tokens]

theorem ofText_array {element : TypeTerm} (built : element.outline? = some outline)
    (same : Token.ofText element.text = outline.tokens) :
    Token.ofText (array element).text = (Outline.array outline).tokens := by
  rw [text, Token.ofText_collapse, Outline.tokens, needsParentheses_outline built,
    Token.ofText_append rfl]
  refine congr (congrArg _ ?_) rfl
  split
  · rw [Token.ofText_parens, same]
  · exact same

mutual

/-- The tokens of the text of a type are those of its outline. -/
theorem ofText_text : (term : TypeTerm) → {outline : Outline} →
    term.outline? = some outline → Token.ofText term.text = outline.tokens
  | .primitive _, _, built => ofText_name built
  | .literal _, _, built => ofText_name built
  | .verbatim _, _, built => ofText_name built
  | .object _ _ _ _, _, built => ofText_name built
  | .reference _ _ _ _ _, _, built => ofText_name built
  | .array element, outline, built => by
    obtain ⟨inner, found, rfl⟩ := Option.map_eq_some_iff.mp built
    exact ofText_array found (ofText_text element found)
  | .tuple elements, outline, built => by
    obtain ⟨outlines, found, rfl⟩ := Option.map_eq_some_iff.mp built
    rw [text, Token.ofText_collapse, Token.ofText_brackets,
      Token.ofText_join Token.separates_comma, ofText_texts elements found,
      ← Outline.listTokens_eq, Outline.tokens]
  | .union label members, outline, built => by
    obtain ⟨unlabelled, first, others, found, rfl⟩ := built_union built
    rw [text, Token.ofText_collapse, if_pos unlabelled,
      Token.ofText_join Token.separates_bar, ofText_texts members found, Outline.tokens,
      Outline.tokensAfter_eq]
    rfl
  | .intersection label members, outline, built => by
    obtain ⟨unlabelled, first, others, found, rfl⟩ := built_intersection built
    rw [text, Token.ofText_collapse, if_pos unlabelled,
      Token.ofText_join Token.separates_ampersand, ofText_texts members found, Outline.tokens,
      Outline.tokensAfter_eq]
    rfl
  | .function label signatures, outline, built => by
    obtain ⟨unlabelled, signature, rfl, found⟩ := built_function built
    rw [text, Token.ofText_collapse, if_pos unlabelled, firstSignatureText]
    exact ofText_signatureText signature found

theorem ofText_texts : (terms : List TypeTerm) → {outlines : List Outline} →
    outlines? terms = some outlines → (texts terms).map Token.ofText = outlines.map Outline.tokens
  | [], outlines, built => by
    cases built
    rfl
  | term :: rest, outlines, built => by
    obtain ⟨outline, others, found, foundOthers, rfl⟩ := built_cons built
    rw [texts, List.map_cons, List.map_cons, ofText_text term found, ofText_texts rest foundOthers]

theorem ofText_signatureText : (signature : Signature TypeTerm) → {outline : Outline} →
    signatureOutline? signature = some outline →
      Token.ofText (signatureText signature) = outline.tokens
  | ⟨parameters, returns⟩, outline, built => by
    obtain ⟨labelled, result, found, foundResult, rfl⟩ := built_signature built
    rw [signatureText, Token.ofText_arrow, Token.ofText_join Token.separates_comma,
      ofText_parameterTexts parameters found, ← Outline.parameterTokens_eq,
      ofText_text returns foundResult, Outline.tokens]

theorem ofText_parameterTexts : (parameters : List (Parameter TypeTerm)) →
    {labelled : List (String × Outline)} → parameterOutlines? parameters = some labelled →
      (parameterTexts parameters).map Token.ofText = labelled.map Outline.ofParameter
  | [], labelled, built => by
    cases built
    rfl
  | ⟨name, type, isOptional, isRest, bound, form⟩ :: rest, labelled, built => by
    obtain ⟨atomic, outline, others, found, foundOthers, rfl⟩ := built_parameter built
    rw [parameterTexts, List.map_cons, List.map_cons, ofText_parameterTexts rest foundOthers,
      String.append_assoc, Token.separates_colon.ofText_append,
      Token.ofText_of_isAtomic atomic, ofText_text type found]
    rfl

end

end TypeTerm

/-!
## Grouping

A union whose members are unions has the tokens of one with all their members, and so it is for
intersections.  Where such nesting is the only one that parentheses would show, an outline is
grouped.
-/

namespace Outline

/-! ## Flat outlines -/

/-- The members of a union; what is no union is its own only member. -/
def alternatives : Outline → Outline × List Outline
  | .union first others => (first, others)
  | outline => (outline, [])

/-- The members of an intersection; what is no intersection is its own only member. -/
def conjuncts : Outline → Outline × List Outline
  | .intersection first others => (first, others)
  | outline => (outline, [])

/-- The members of some members in a row. -/
def spread (members : Outline → Outline × List Outline) (outlines : List Outline) :
    List Outline :=
  outlines.flatMap fun outline => (members outline).1 :: (members outline).2

mutual

/-- The outline with the members of unions in place of unions that are members of unions, and the
same for intersections. -/
def flat : Outline → Outline
  | .name word => .name word
  | .array element => .array (flat element)
  | .tuple elements => .tuple (flatList elements)
  | .union first others =>
    let start := alternatives (flat first)
    .union start.1 (start.2 ++ spread alternatives (flatList others))
  | .intersection first others =>
    let start := conjuncts (flat first)
    .intersection start.1 (start.2 ++ spread conjuncts (flatList others))
  | .function parameters returns => .function (flatParameters parameters) (flat returns)

@[inherit_doc flat]
def flatList : List Outline → List Outline
  | [] => []
  | outline :: rest => flat outline :: flatList rest

@[inherit_doc flat]
def flatParameters : List (String × Outline) → List (String × Outline)
  | [] => []
  | (label, type) :: rest => (label, flat type) :: flatParameters rest

end

theorem each_append (mark : Mark) (first second : List (List Token)) :
    each mark (first ++ second) = each mark first ++ each mark second :=
  List.flatMap_append

/-- Members in a row have the tokens of what they are members of. -/
theorem each_spread {mark : Mark} {members : Outline → Outline × List Outline}
    (same : ∀ outline,
      (members outline).1.tokens ++ tokensAfter mark (members outline).2 = outline.tokens)
    (outlines : List Outline) :
    each mark ((spread members outlines).map tokens) = each mark (outlines.map tokens) := by
  induction outlines with
  | nil => rfl
  | cons outline rest ih =>
    have here : each mark (((members outline).1 :: (members outline).2).map tokens) =
        .mark mark :: outline.tokens := by
      rw [← same outline, tokensAfter_eq]
      rfl
    rw [spread, List.flatMap_cons, List.map_append, each_append, here]
    rw [spread] at ih
    rw [ih]
    rfl

/-- The tokens of members with those of the first one spread. -/
theorem tokens_spread
    {mark : Mark} {members : Outline → Outline × List Outline} {first flatFirst : Outline}
    {others flatOthers : List Outline}
    (same : ∀ outline,
      (members outline).1.tokens ++ tokensAfter mark (members outline).2 = outline.tokens)
    (sameFirst : flatFirst.tokens = first.tokens)
    (sameOthers : flatOthers.map tokens = others.map tokens) :
    (members flatFirst).1.tokens ++
        tokensAfter mark ((members flatFirst).2 ++ spread members flatOthers) =
      first.tokens ++ tokensAfter mark others := by
  rw [← sameFirst, ← same flatFirst]
  simp only [tokensAfter_eq, List.map_append, each_append]
  rw [each_spread same, sameOthers, List.append_assoc]

theorem tokens_alternatives (outline : Outline) :
    (alternatives outline).1.tokens ++ tokensAfter .bar (alternatives outline).2 =
      outline.tokens := by
  unfold alternatives
  split
  · rw [tokens]
  · exact List.append_nil _

theorem tokens_conjuncts (outline : Outline) :
    (conjuncts outline).1.tokens ++ tokensAfter .ampersand (conjuncts outline).2 =
      outline.tokens := by
  unfold conjuncts
  split
  · rw [tokens]
  · exact List.append_nil _

theorem needsParentheses_flat (outline : Outline) :
    outline.flat.needsParentheses = outline.needsParentheses := by
  cases outline <;> rw [flat] <;> rfl

mutual

/-- Flattening leaves the tokens as they are. -/
theorem tokens_flat : (outline : Outline) → outline.flat.tokens = outline.tokens
  | .name _ => by rw [flat]
  | .array element => by
    rw [flat, tokens, tokens, needsParentheses_flat, tokens_flat element]
  | .tuple elements => by
    rw [flat, tokens, tokens, listTokens_eq, listTokens_eq, tokens_flatList elements]
  | .union first others => by
    rw [flat, tokens, tokens]
    exact tokens_spread tokens_alternatives (tokens_flat first) (tokens_flatList others)
  | .intersection first others => by
    rw [flat, tokens, tokens]
    exact tokens_spread tokens_conjuncts (tokens_flat first) (tokens_flatList others)
  | .function parameters returns => by
    rw [flat, tokens, tokens, parameterTokens_eq, parameterTokens_eq,
      tokens_flatParameters parameters, tokens_flat returns]

theorem tokens_flatList : (outlines : List Outline) →
    (flatList outlines).map tokens = outlines.map tokens
  | [] => by rw [flatList]
  | outline :: rest => by
    rw [flatList, List.map_cons, List.map_cons, tokens_flat outline, tokens_flatList rest]

theorem tokens_flatParameters : (parameters : List (String × Outline)) →
    (flatParameters parameters).map ofParameter = parameters.map ofParameter
  | [] => by rw [flatParameters]
  | (label, type) :: rest => by
    rw [flatParameters, List.map_cons, List.map_cons, ofParameter, ofParameter,
      tokens_flat type, tokens_flatParameters rest]

end

/-! ## Grouped outlines -/

/-- Whether an outline is no union. -/
def fitsUnion : Outline → Bool
  | .union _ _ => false
  | _ => true

/-- Whether an outline is neither a union nor an intersection. -/
def fitsIntersection : Outline → Bool
  | .union _ _ | .intersection _ _ => false
  | _ => true

mutual

/-- Whether the tokens of an outline end in the result of a function, so that more could be taken
for a part of it. -/
def opens : Outline → Bool
  | .name _ | .array _ | .tuple _ => false
  | .union first others | .intersection first others => lastOpens (opens first) others
  | .function _ _ => true

/-- Whether the last of some outlines ends in the result of a function. -/
def lastOpens (before : Bool) : List Outline → Bool
  | [] => before
  | outline :: rest => lastOpens (opens outline) rest

end

mutual

/-- Whether the parts of an outline group in the way that its tokens say: unions and intersections
have more than one member, none of these binds less tightly, and only the last one may end in the
result of a function. -/
def isGrouped : Outline → Bool
  | .name _ => true
  | .array element => isGrouped element
  | .tuple elements => areGrouped elements
  | .union first others =>
    !others.isEmpty && fitsUnion first && isGrouped first
      && areGroupedAfter fitsUnion (opens first) others
  | .intersection first others =>
    !others.isEmpty && fitsIntersection first && isGrouped first
      && areGroupedAfter fitsIntersection (opens first) others
  | .function parameters returns => areGroupedParameters parameters && isGrouped returns

@[inherit_doc isGrouped]
def areGrouped : List Outline → Bool
  | [] => true
  | outline :: rest => isGrouped outline && areGrouped rest

/-- Whether members after another one fit and group. -/
def areGroupedAfter (fits : Outline → Bool) (before : Bool) : List Outline → Bool
  | [] => true
  | outline :: rest =>
    !before && fits outline && isGrouped outline && areGroupedAfter fits (opens outline) rest

@[inherit_doc isGrouped]
def areGroupedParameters : List (String × Outline) → Bool
  | [] => true
  | (_, type) :: rest => isGrouped type && areGroupedParameters rest

end

theorem areGrouped_iff {outlines : List Outline} :
    areGrouped outlines = true ↔ ∀ outline ∈ outlines, outline.isGrouped = true := by
  induction outlines with
  | nil => simp [areGrouped]
  | cons outline rest ih =>
    rw [areGrouped, Bool.and_eq_true, ih, List.forall_mem_cons]

theorem areGroupedParameters_iff {parameters : List (String × Outline)} :
    areGroupedParameters parameters = true ↔
      ∀ parameter ∈ parameters, parameter.2.isGrouped = true := by
  induction parameters with
  | nil => simp [areGroupedParameters]
  | cons parameter rest ih =>
    obtain ⟨label, type⟩ := parameter
    rw [areGroupedParameters, Bool.and_eq_true, ih, List.forall_mem_cons]

theorem fitsUnion_of_fitsIntersection {outline : Outline} (fits : outline.fitsIntersection = true) :
    outline.fitsUnion = true := by
  cases outline <;> first | rfl | cases fits

end Outline
end ModuleAtlas
