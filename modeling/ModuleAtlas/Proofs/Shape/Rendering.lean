import ModuleAtlas.Shape.Basic
import ModuleAtlas.Proofs.Types.Layering

/-!
# Reading rendered shapes

A shape that is built from names by arrays, tuples, unions and intersections renders to a text.  The
text is read as what the shape is made of exactly if no member of an intersection is a union, since
parentheses are put around the element of an array only.
-/

namespace ModuleAtlas
namespace Shape

mutual

/-- The outline of a shape that is built from names. -/
def outline? : Shape → Option Outline
  | .primitive text | .literal text | .reference text | .verbatim text => Outline.ofName? text
  | .array element => (outline? element).map .array
  | .tuple elements => (outlines? elements).map .tuple
  | .union members => (outlines? members).bind (Outline.ofMembers? .union)
  | .intersection members => (outlines? members).bind (Outline.ofMembers? .intersection)
  | .function _ _ | .object _ _ => none

/-- The outlines of shapes. -/
def outlines? : List Shape → Option (List Outline)
  | [] => some []
  | shape :: rest => do return (← outline? shape) :: (← outlines? rest)

end

/-! ## Built shapes -/

theorem built_cons {shape : Shape} {rest : List Shape} {outlines : List Outline}
    (built : outlines? (shape :: rest) = some outlines) :
    ∃ outline others, shape.outline? = some outline ∧ outlines? rest = some others ∧
      outlines = outline :: others := by
  rw [outlines?] at built
  obtain ⟨outline, found, built⟩ := Option.bind_eq_some_iff.mp built
  obtain ⟨others, foundOthers, built⟩ := Option.bind_eq_some_iff.mp built
  exact ⟨outline, others, found, foundOthers, (Option.some.inj built).symm⟩

theorem needsParentheses_outline {shape : Shape} {outline : Outline}
    (built : shape.outline? = some outline) :
    outline.needsParentheses = shape.isAlternative := by
  cases shape with
  | primitive | literal | reference | verbatim =>
    rw [outline?] at built
    obtain ⟨_, rfl⟩ := TypeTerm.built_name built
    rfl
  | array element =>
    obtain ⟨_, _, rfl⟩ := Option.map_eq_some_iff.mp built
    rfl
  | tuple elements =>
    obtain ⟨_, _, rfl⟩ := Option.map_eq_some_iff.mp built
    rfl
  | union members =>
    obtain ⟨_, _, _, rfl⟩ := TypeTerm.built_members built
    rfl
  | intersection members =>
    obtain ⟨_, _, _, rfl⟩ := TypeTerm.built_members built
    rfl
  | function | object => cases built

mutual

/-- There are no functions in what a shape is built from. -/
theorem isPlain_outline : (shape : Shape) → {outline : Outline} →
    shape.outline? = some outline → outline.isPlain = true
  | .primitive _, _, built | .literal _, _, built | .reference _, _, built
  | .verbatim _, _, built => by
    rw [outline?] at built
    obtain ⟨_, rfl⟩ := TypeTerm.built_name built
    rfl
  | .array element, _, built => by
    obtain ⟨inner, found, rfl⟩ := Option.map_eq_some_iff.mp built
    rw [Outline.isPlain]
    exact isPlain_outline element found
  | .tuple elements, _, built => by
    obtain ⟨outlines, found, rfl⟩ := Option.map_eq_some_iff.mp built
    rw [Outline.isPlain]
    exact arePlain_outlines elements found
  | .union members, _, built => by
    obtain ⟨first, others, found, rfl⟩ := TypeTerm.built_members built
    exact arePlain_outlines members found
  | .intersection members, _, built => by
    obtain ⟨first, others, found, rfl⟩ := TypeTerm.built_members built
    exact arePlain_outlines members found
  | .function _ _, _, built | .object _ _, _, built => by cases built

theorem arePlain_outlines : (shapes : List Shape) → {outlines : List Outline} →
    outlines? shapes = some outlines → Outline.arePlain outlines = true
  | [], _, built => by
    cases built
    rfl
  | shape :: rest, _, built => by
    obtain ⟨outline, others, found, foundOthers, rfl⟩ := built_cons built
    rw [Outline.arePlain, isPlain_outline shape found, arePlain_outlines rest foundOthers]
    rfl

end

/-! ## The text of a shape -/

theorem joined_texts (opening separator closing key : String) (texts : List String) :
    joined opening separator closing key (texts.map .string) =
      .string (opening ++ Text.join separator texts ++ closing) := by
  have all : (texts.map Json.string).mapM Json.text? = some texts := by
    induction texts with
    | nil => rfl
    | cons text rest ih =>
      rw [List.map_cons, List.mapM_cons, ih]
      rfl
  rw [joined, all]

theorem ofText_brackets_after (inner : String) :
    Token.ofText (inner ++ "[]") =
      Token.ofText inner ++ [.mark .openBracket, .mark .closeBracket] :=
  Token.ofText_append rfl

theorem ofText_parens_brackets (inner : String) :
    Token.ofText ("(" ++ inner ++ ")[]") =
      .mark .openParen :: (Token.ofText inner ++ [.mark .closeParen]) ++
        [.mark .openBracket, .mark .closeBracket] := by
  have split : "(" ++ inner ++ ")[]" = "(" ++ inner ++ ")" ++ "[]" := by
    rw [@String.append_assoc ("(" ++ inner)]
    rfl
  rw [split, ofText_brackets_after, Token.ofText_parens]

mutual

/-- A shape that is built from names renders to a text with the tokens of its outline. -/
theorem render_text : (shape : Shape) → {outline : Outline} → shape.outline? = some outline →
    ∃ text, shape.render = .string text ∧ Token.ofText text = outline.tokens
  | .primitive text, _, built | .literal text, _, built | .reference text, _, built
  | .verbatim text, _, built => by
    rw [outline?] at built
    obtain ⟨atomic, rfl⟩ := TypeTerm.built_name built
    exact ⟨text, by rw [render], by rw [Token.ofText_of_isAtomic atomic, Outline.tokens]⟩
  | .array element, _, built => by
    obtain ⟨inner, found, rfl⟩ := Option.map_eq_some_iff.mp built
    obtain ⟨text, rendered, tokens⟩ := render_text element found
    rw [render, rendered, Outline.tokens, needsParentheses_outline found]
    dsimp only
    cases element.isAlternative with
    | true => exact ⟨_, rfl, by rw [ofText_parens_brackets, tokens]; rfl⟩
    | false => exact ⟨_, rfl, by rw [ofText_brackets_after, tokens]; rfl⟩
  | .tuple elements, _, built => by
    obtain ⟨outlines, found, rfl⟩ := Option.map_eq_some_iff.mp built
    obtain ⟨texts, rendered, tokens⟩ := renderAll_texts elements found
    rw [render, rendered, joined_texts, Outline.tokens]
    refine ⟨_, rfl, ?_⟩
    rw [Token.ofText_brackets, Token.ofText_join Token.separates_comma, tokens,
      ← Outline.listTokens_eq]
  | .union members, _, built => by
    obtain ⟨first, others, found, rfl⟩ := TypeTerm.built_members built
    obtain ⟨texts, rendered, tokens⟩ := renderAll_texts members found
    rw [render, rendered, joined_texts, Outline.tokens]
    refine ⟨_, rfl, ?_⟩
    rw [String.empty_append, String.append_empty, Token.ofText_join Token.separates_bar, tokens,
      Outline.tokensAfter_eq]
    rfl
  | .intersection members, _, built => by
    obtain ⟨first, others, found, rfl⟩ := TypeTerm.built_members built
    obtain ⟨texts, rendered, tokens⟩ := renderAll_texts members found
    rw [render, rendered, joined_texts, Outline.tokens]
    refine ⟨_, rfl, ?_⟩
    rw [String.empty_append, String.append_empty, Token.ofText_join Token.separates_ampersand,
      tokens, Outline.tokensAfter_eq]
    rfl
  | .function _ _, _, built | .object _ _, _, built => by cases built

/-- Shapes with an outline are rendered as texts, whose tokens are those of the outlines. -/
theorem renderAll_texts : (shapes : List Shape) → {outlines : List Outline} →
    outlines? shapes = some outlines →
      ∃ texts : List String, renderAll shapes = texts.map .string ∧
        texts.map Token.ofText = outlines.map Outline.tokens
  | [], _, built => by
    cases built
    exact ⟨[], rfl, rfl⟩
  | shape :: rest, _, built => by
    obtain ⟨outline, others, found, foundOthers, rfl⟩ := built_cons built
    obtain ⟨text, rendered, tokens⟩ := render_text shape found
    obtain ⟨texts, renderedRest, tokensRest⟩ := renderAll_texts rest foundOthers
    refine ⟨text :: texts, ?_, ?_⟩
    · rw [renderAll, rendered, renderedRest, List.map_cons]
    · rw [List.map_cons, List.map_cons, tokens, tokensRest]

end

/-- A shape that is built from names renders to a text, which is read as what the rows of its
outline mean.  This is what the shape is made of, up to unions and intersections of one member or
directly inside another, exactly if no member of an intersection is a union in it.  So two such
shapes render to the same text only if they are made of the same. -/
theorem render_read_as_core {shape : Shape} {outline : Outline}
    (built : shape.outline? = some outline) :
    ∃ text, shape.render = .string text ∧
      Outline.ofText? text = some outline.reading ∧
      (Outline.ofText? text = some outline.core ↔ outline.core.isLayered = true) ∧
      ∀ (other : Shape) (otherOutline : Outline), other.outline? = some otherOutline →
        outline.core.isLayered = true → otherOutline.core.isLayered = true →
        other.render = shape.render → otherOutline.core = outline.core := by
  obtain ⟨text, rendered, tokens⟩ := render_text shape built
  have read : Outline.ofText? text = some outline.reading := by
    rw [Outline.ofText?, tokens]
    exact Outline.ofTokens?_eq_reading (isPlain_outline shape built)
  refine ⟨text, rendered, read, ?_, ?_⟩
  · rw [read, Option.some_inj]
    exact Outline.reading_eq_core_iff
  · intro other otherOutline builtOther layered layeredOther same
    obtain ⟨otherText, renderedOther, tokensOther⟩ := render_text other builtOther
    have sameText : otherText = text := by
      rw [renderedOther, rendered] at same
      exact Json.string.inj same
    have readOther : Outline.ofText? otherText = some otherOutline.reading := by
      rw [Outline.ofText?, tokensOther]
      exact Outline.ofTokens?_eq_reading (isPlain_outline other builtOther)
    rw [sameText, read, Option.some_inj] at readOther
    rw [← Outline.reading_eq_core_iff.mpr layered,
      ← Outline.reading_eq_core_iff.mpr layeredOther, readOther]

/-- An array of a union with an intersection in it is read back. -/
theorem array_of_alternatives_read_back :
    ∃ text,
      (array (union [verbatim "A", intersection [verbatim "B", union [verbatim "C"]]])).render =
        .string text ∧
      Outline.ofText? text =
        some (.array (.union (.name "A") [.intersection (.name "B") [.name "C"]])) := by
  have built : (array (union [verbatim "A", intersection [verbatim "B",
      union [verbatim "C"]]])).outline? =
        some (.array (.union (.name "A") [.intersection (.name "B") [.union (.name "C") []]])) :=
    rfl
  obtain ⟨text, rendered, -, readIff, -⟩ := render_read_as_core built
  exact ⟨text, rendered, readIff.mpr (by decide)⟩

/-- An intersection with a union in it. -/
def unionInIntersection : Shape :=
  intersection [union [verbatim "A", verbatim "B"], verbatim "C"]

/-- A union with an intersection in it. -/
def intersectionInUnion : Shape :=
  union [verbatim "A", intersection [verbatim "B", verbatim "C"]]

/-- An intersection with a union in it renders to the text of another shape, and is read as that. -/
theorem union_in_intersection_not_read_back :
    unionInIntersection.render = .string "A | B & C" ∧
    intersectionInUnion.render = .string "A | B & C" ∧
    ∃ outline otherOutline, unionInIntersection.outline? = some outline ∧
      intersectionInUnion.outline? = some otherOutline ∧ outline.core ≠ otherOutline.core ∧
      Outline.ofText? "A | B & C" = some otherOutline.core := by
  have built : intersectionInUnion.outline? =
      some (.union (.name "A") [.intersection (.name "B") [.name "C"]]) :=
    rfl
  have rendered : intersectionInUnion.render = .string "A | B & C" := rfl
  refine ⟨rfl, rendered, .intersection (.union (.name "A") [.name "B"]) [.name "C"], _, rfl, built,
    nofun, ?_⟩
  obtain ⟨text, tokens⟩ := render_text intersectionInUnion built
  obtain rfl : text = "A | B & C" := Json.string.inj (tokens.1.symm.trans rendered)
  rw [Outline.ofText?, tokens.2, Outline.ofTokens?_eq_reading rfl]
  exact congrArg some (Outline.reading_eq_core_iff.mpr (by decide))

end Shape
end ModuleAtlas
