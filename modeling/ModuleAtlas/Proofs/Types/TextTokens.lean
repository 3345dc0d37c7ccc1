import ModuleAtlas.Proofs.Text.Pieces

/-!
# The tokens of a type's text

A text falls into marks and words.  Blanks end a word and count for nothing else, so collapsing
their runs leaves the tokens as they are.
-/

namespace ModuleAtlas

/-- A character that stands for itself in the text of a type. -/
inductive Mark where
  | openParen
  | closeParen
  | openBracket
  | closeBracket
  | bar
  | ampersand
  | comma
  | colon
  | equals
  | greater
deriving DecidableEq

/-- A mark or a word. -/
inductive Token where
  | mark (mark : Mark)
  | word (chars : List Char)
deriving DecidableEq

namespace Mark

/-- The mark that a character is. -/
def ofChar? (c : Char) : Option Mark :=
  match c with
  | '(' => some openParen
  | ')' => some closeParen
  | '[' => some openBracket
  | ']' => some closeBracket
  | '|' => some bar
  | '&' => some ampersand
  | ',' => some comma
  | ':' => some colon
  | '=' => some equals
  | '>' => some greater
  | _ => none

end Mark

namespace Token

/-! ## Cutting a text into tokens -/

/-- Whether a character belongs to a word. -/
def isWordChar (c : Char) : Bool := !Text.isBlank c && (Mark.ofChar? c).isNone

/-- Whether a text starts with a word. -/
def startsWord : List Char → Bool
  | [] => false
  | c :: _ => isWordChar c

/-- The tokens after a character of a word, with the character as part of the word that follows it
at once, if one does. -/
def extend (c : Char) (follows : Bool) : List Token → List Token
  | .word chars :: rest =>
    if follows then .word (c :: chars) :: rest else .word [c] :: .word chars :: rest
  | tokens => .word [c] :: tokens

/-- The tokens of a text. -/
def ofChars : List Char → List Token
  | [] => []
  | c :: rest =>
    if Text.isBlank c then ofChars rest
    else
      match Mark.ofChar? c with
      | some sign => .mark sign :: ofChars rest
      | none => extend c (startsWord rest) (ofChars rest)

variable {c : Char}

theorem ofChars_blank (blank : Text.isBlank c = true) (rest : List Char) :
    ofChars (c :: rest) = ofChars rest := by
  rw [ofChars, if_pos blank]

theorem ofChars_mark {sign : Mark} (solid : Text.isBlank c = false)
    (isMark : Mark.ofChar? c = some sign) (rest : List Char) :
    ofChars (c :: rest) = .mark sign :: ofChars rest := by
  rw [ofChars, if_neg (by rw [solid]; decide), isMark]

theorem ofChars_word (isWord : isWordChar c = true) (rest : List Char) :
    ofChars (c :: rest) = extend c (startsWord rest) (ofChars rest) := by
  unfold isWordChar at isWord
  rw [Bool.and_eq_true, Bool.not_eq_true', Option.isNone_iff_eq_none] at isWord
  rw [ofChars, if_neg (by rw [isWord.1]; decide), isWord.2]

@[simp] theorem extend_false (c : Char) (tokens : List Token) :
    extend c false tokens = .word [c] :: tokens := by
  unfold extend
  split <;> rfl

/-- A character is a blank, a mark or part of a word. -/
theorem blank_or_mark_or_word (c : Char) :
    Text.isBlank c = true ∨ (Text.isBlank c = false ∧ ∃ sign, Mark.ofChar? c = some sign) ∨
      isWordChar c = true := by
  unfold isWordChar
  cases Text.isBlank c with
  | true => exact .inl rfl
  | false =>
    cases found : Mark.ofChar? c with
    | some sign => exact .inr (.inl ⟨rfl, sign, rfl⟩)
    | none => exact .inr (.inr rfl)

theorem isWordChar_of_blank (blank : Text.isBlank c = true) : isWordChar c = false := by
  simp [isWordChar, blank]

/-- The tokens depend on the text after a character only by its tokens and whether a word goes on in
it. -/
theorem ofChars_cons_congr {first second : List Char}
    (starts : startsWord first = startsWord second) (same : ofChars first = ofChars second) :
    ofChars (c :: first) = ofChars (c :: second) := by
  rcases blank_or_mark_or_word c with blank | ⟨solid, sign, isMark⟩ | isWord
  · rw [ofChars_blank blank, ofChars_blank blank, same]
  · rw [ofChars_mark solid isMark, ofChars_mark solid isMark, same]
  · rw [ofChars_word isWord, ofChars_word isWord, starts, same]

/-! ## Texts one after the other -/

/-- A text that starts with a word has it as its first token. -/
theorem ofChars_of_startsWord {text : List Char} (starts : startsWord text = true) :
    ∃ chars rest, ofChars text = .word chars :: rest := by
  cases text with
  | nil => cases starts
  | cons c rest =>
    rw [ofChars_word starts]
    unfold extend
    split
    · split
      · exact ⟨_, _, rfl⟩
      · exact ⟨_, _, rfl⟩
    · exact ⟨_, _, rfl⟩

/-- Where no word goes on from a text into the next one, their tokens follow each other. -/
theorem ofChars_append {first second : List Char} (apart : startsWord second = false) :
    ofChars (first ++ second) = ofChars first ++ ofChars second := by
  induction first with
  | nil => rfl
  | cons c first ih =>
    rw [List.cons_append]
    rcases blank_or_mark_or_word c with blank | ⟨solid, sign, isMark⟩ | isWord
    · rw [ofChars_blank blank, ofChars_blank blank, ih]
    · rw [ofChars_mark solid isMark, ofChars_mark solid isMark, ih,
        List.cons_append]
    · rw [ofChars_word isWord, ofChars_word isWord, ih]
      -- The character starts a word of its own unless the first text goes on with one.
      cases goesOn : startsWord first with
      | false =>
        have stops : startsWord (first ++ second) = false := by
          cases first with
          | nil => exact apart
          | cons d first => exact goesOn
        rw [stops, extend_false, extend_false, List.cons_append]
      | true =>
        have starts : startsWord (first ++ second) = true := by
          cases first with
          | nil => cases goesOn
          | cons d first => exact goesOn
        obtain ⟨chars, rest, tokens⟩ := ofChars_of_startsWord goesOn
        rw [starts, tokens]
        rfl

/-! ## Runs of blanks -/

theorem startsWord_collapseChars (solid : Text.isBlank c = false) (rest : List Char) :
    startsWord (Text.collapseChars (c :: rest)) = startsWord (c :: rest) := by
  obtain ⟨more, known⟩ := Text.head_collapseChars solid rest
  rw [known]
  rfl

/-- Collapsing the runs of blanks leaves the tokens as they are. -/
theorem ofChars_collapseChars (text : List Char) :
    ofChars (Text.collapseChars text) = ofChars text := by
  fun_induction Text.collapseChars text with
  | case1 => rfl
  | case2 c rest blank ih => rw [ih, ofChars_blank blank]
  | case3 c solid => rfl
  | case4 c solid d rest blank none ih =>
    have ends : startsWord (d :: rest) = false := isWordChar_of_blank blank
    rw [none] at ih ⊢
    refine ofChars_cons_congr ?_ ih
    exact ends.symm
  | case5 c solid d rest blank some ih =>
    have ends : startsWord (d :: rest) = false := isWordChar_of_blank blank
    split
    · rename_i none
      exact absurd none some
    · refine ofChars_cons_congr ?_ ?_
      · exact ends.symm
      · rw [← ih]
        exact ofChars_blank rfl _
  | case6 c solid d rest notBlank ih =>
    refine ofChars_cons_congr ?_ ih
    exact startsWord_collapseChars (Bool.not_eq_true _ ▸ notBlank) rest

/-- The tokens of a string. -/
def ofText (text : String) : List Token := ofChars text.toList

@[simp] theorem ofText_collapse (text : String) : ofText (Text.collapse text) = ofText text := by
  unfold ofText Text.collapse
  rw [String.toList_ofList, ofChars_collapseChars]

/-! ## Words -/

/-- A word with nothing around it. -/
def isAtomic (word : String) : Bool := !word.toList.isEmpty && word.toList.all isWordChar

theorem ofChars_of_all {rest : List Char} (all : (c :: rest).all isWordChar = true) :
    ofChars (c :: rest) = [.word (c :: rest)] := by
  induction rest generalizing c with
  | nil =>
    rw [List.all_cons, Bool.and_eq_true] at all
    rw [ofChars_word all.1]
    rfl
  | cons d rest ih =>
    rw [List.all_cons, Bool.and_eq_true] at all
    have starts : startsWord (d :: rest) = true := by
      have allRest := all.2
      rw [List.all_cons, Bool.and_eq_true] at allRest
      exact allRest.1
    rw [ofChars_word all.1, ih all.2, starts]
    rfl

/-- A word is its only token. -/
theorem ofText_of_isAtomic {word : String} (atomic : isAtomic word = true) :
    ofText word = [.word word.toList] := by
  unfold isAtomic at atomic
  rw [Bool.and_eq_true] at atomic
  unfold ofText
  cases chars : word.toList with
  | nil =>
    rw [chars] at atomic
    cases atomic.1
  | cons c rest => exact ofChars_of_all (chars ▸ atomic.2)

end Token
end ModuleAtlas
