import ModuleAtlas.Proofs.Json.Stripped

/-!
# Documents without comments

The grammar of strict JSON: white space alone may stand between tokens, and no comma may stand
before a closing bracket.  Outside its strings such a document has no slash, so the scanner for
comments steps over each string as a whole and never meets anything that it would take out.
-/

namespace ModuleAtlas
namespace Json

/-! ## The grammar -/

/-- White space only. -/
def IsSpaces (text : List Char) : Prop := ∀ c ∈ text, Parser.isSpace c = true

/-- The text of a number with any count of digits.  A zero in front stands alone. -/
inductive IsNumber : List Char → Prop where
  | mk (negative : Bool) (whole : Digits) (places : Option Digits) (exponent : Option Exponent)
      (leading : ∀ rest, whole.chars = '0' :: rest → rest = []) :
      IsNumber ((if negative then ['-'] else []) ++ whole.chars ++ Numeral.placesText places ++
        Numeral.exponentText exponent)

/-- The parts of a document: a value, an element that is a value with white space around it, the
elements of an array, a member that is a key with its element, and the members of an object. -/
inductive Form where
  | value
  | element
  | elements
  | member
  | members

/-- The texts of the parts of strict documents. -/
inductive Strict : Form → List Char → Prop where
  | null : Strict .value ['n', 'u', 'l', 'l']
  | isTrue : Strict .value ['t', 'r', 'u', 'e']
  | isFalse : Strict .value ['f', 'a', 'l', 's', 'e']
  | number {text : List Char} (isNumber : IsNumber text) : Strict .value text
  | string (pieces : List Piece) : Strict .value (Piece.quoted pieces)
  | emptyArray {spaces : List Char} (blank : IsSpaces spaces) :
      Strict .value ('[' :: spaces ++ [']'])
  | array {items : List Char} (strict : Strict .elements items) :
      Strict .value ('[' :: items ++ [']'])
  | emptyObject {spaces : List Char} (blank : IsSpaces spaces) :
      Strict .value ('\x7b' :: spaces ++ ['\x7d'])
  | object {entries : List Char} (strict : Strict .members entries) :
      Strict .value ('\x7b' :: entries ++ ['\x7d'])
  | element {before text after : List Char}
      (blankBefore : IsSpaces before)
      (strict : Strict .value text)
      (blankAfter : IsSpaces after) :
      Strict .element (before ++ text ++ after)
  | lastElement {text : List Char} (strict : Strict .element text) : Strict .elements text
  | moreElements {text rest : List Char}
      (strict : Strict .element text)
      (more : Strict .elements rest) :
      Strict .elements (text ++ ',' :: rest)
  | member {before after text : List Char} (key : List Piece)
      (blankBefore : IsSpaces before)
      (blankAfter : IsSpaces after)
      (strict : Strict .element text) :
      Strict .member (before ++ Piece.quoted key ++ after ++ ':' :: text)
  | lastMember {text : List Char} (strict : Strict .member text) : Strict .members text
  | moreMembers {text rest : List Char}
      (strict : Strict .member text)
      (more : Strict .members rest) :
      Strict .members (text ++ ',' :: rest)

/-- The text of a strict document: one element. -/
abbrev IsStrict (text : List Char) : Prop := Strict .element text

/-! ## The scanner on the parts -/

theorem scan_spaces {spaces : List Char} (blank : IsSpaces spaces) (rest : List Char) :
    Comments.scan true 0 (spaces ++ rest) = spaces ++ Comments.scan true 0 rest :=
  Comments.scan_ordinary (fun c member => isOrdinary_of_isSpace (blank c member)) rest

theorem closes_spaces {spaces : List Char} (blank : IsSpaces spaces) (rest : List Char) :
    Comments.closes (spaces ++ rest) = Comments.closes rest := by
  induction spaces with
  | nil => rfl
  | cons c spaces ih =>
    rw [List.cons_append, closes_of_isSpace (blank c List.mem_cons_self)]
    exact ih fun other member => blank other (List.mem_cons_of_mem _ member)

theorem not_closes_quoted (key : List Piece) (rest : List Char) :
    Comments.closes (Piece.quoted key ++ rest) = false :=
  not_closes_of_starts ⟨'"', _, rfl, by decide⟩ rest

namespace Strict

variable {form : Form} {text : List Char}

/-- No part of a document starts with a closing bracket, white space left aside.  So the comma in
front of it is no last comma. -/
theorem not_closes (strict : Strict form text) (rest : List Char) :
    Comments.closes (text ++ rest) = false := by
  induction strict generalizing rest with
  | number isNumber =>
    obtain ⟨negative, whole, places, exponent, -⟩ := isNumber
    have starts := starts_of_parts negative whole
      (Numeral.placesText places ++ Numeral.exponentText exponent)
    rw [← List.append_assoc] at starts
    exact not_closes_of_starts starts rest
  | null | isTrue | isFalse | string | emptyArray | array | emptyObject | object =>
    exact not_closes_of_starts ⟨_, _, rfl, by decide⟩ rest
  | element blankBefore _ _ ih =>
    rw [List.append_assoc, List.append_assoc, closes_spaces blankBefore, ih]
  | lastElement _ ih => exact ih rest
  | moreElements _ _ ih => rw [List.append_assoc, ih]
  | member key blankBefore =>
    rw [List.append_assoc, List.append_assoc, List.append_assoc, closes_spaces blankBefore,
      not_closes_quoted]
  | lastMember _ ih => exact ih rest
  | moreMembers _ _ ih => rw [List.append_assoc, ih]

/-- A comma in front of a part of a document is kept. -/
theorem scan_comma (strict : Strict form text) (rest : List Char) :
    Comments.scan true 0 (',' :: (text ++ rest)) = ',' :: Comments.scan true 0 (text ++ rest) := by
  rw [Json.scan_comma, strict.not_closes, if_neg (by simp)]
  rfl

/-- A part of a document is kept as it is, and the scanner goes on behind it. -/
theorem scan_eq (strict : Strict form text) (rest : List Char) :
    Comments.scan true 0 (text ++ rest) = text ++ Comments.scan true 0 rest := by
  have openBracket : Comments.IsOrdinary '[' := by decide
  have closeBracket : Comments.IsOrdinary ']' := by decide
  have openBrace : Comments.IsOrdinary '\x7b' := by decide
  have closeBrace : Comments.IsOrdinary '\x7d' := by decide
  have colon : Comments.IsOrdinary ':' := by decide
  induction strict generalizing rest with
  | null | isTrue | isFalse => exact Comments.scan_ordinary (by simp [Comments.IsOrdinary]) rest
  | number isNumber =>
    obtain ⟨negative, whole, places, exponent, -⟩ := isNumber
    exact Comments.scan_ordinary (isOrdinary_of_mem_parts negative whole places exponent) rest
  | string pieces => exact scan_quoted pieces rest
  | emptyArray blank =>
    simp only [List.cons_append, List.append_assoc, List.nil_append]
    rw [scan_ordinary_char openBracket, scan_spaces blank, scan_ordinary_char closeBracket]
  | array _ ih =>
    simp only [List.cons_append, List.append_assoc, List.nil_append]
    rw [scan_ordinary_char openBracket, ih, scan_ordinary_char closeBracket]
  | emptyObject blank =>
    simp only [List.cons_append, List.append_assoc, List.nil_append]
    rw [scan_ordinary_char openBrace, scan_spaces blank, scan_ordinary_char closeBrace]
  | object _ ih =>
    simp only [List.cons_append, List.append_assoc, List.nil_append]
    rw [scan_ordinary_char openBrace, ih, scan_ordinary_char closeBrace]
  | element blankBefore _ blankAfter ih =>
    simp only [List.append_assoc]
    rw [scan_spaces blankBefore, ih, scan_spaces blankAfter]
  | lastElement _ ih => exact ih rest
  | moreElements _ more ih moreHypothesis =>
    simp only [List.append_assoc, List.cons_append]
    rw [ih, more.scan_comma, moreHypothesis]
  | member key blankBefore blankAfter _ ih =>
    simp only [List.append_assoc, List.cons_append]
    rw [scan_spaces blankBefore, scan_quoted, scan_spaces blankAfter, scan_ordinary_char colon, ih]
  | lastMember _ ih => exact ih rest
  | moreMembers _ more ih moreHypothesis =>
    simp only [List.append_assoc, List.cons_append]
    rw [ih, more.scan_comma, moreHypothesis]

end Strict

/-- Nothing is taken out of a strict document. -/
theorem stripComments_of_isStrict {text : List Char} (strict : IsStrict text) :
    stripComments text = text := by
  have scanned := strict.scan_eq []
  simpa [stripComments, Comments.scan] using scanned

end Json
end ModuleAtlas
