import ModuleAtlas.Proofs.Text.Quoted
import ModuleAtlas.Shape.Simplify

/-!
# Types that are shown on sight

A type whose text is the name of a primitive or built-in type, or the text of a literal, is shown by
this text alone.  Brackets and the marks of unions and intersections tell most texts from these.
-/

namespace ModuleAtlas

namespace Text

variable {c : Char} {text : List Char}

theorem getLast?_collapseChars (solid : isBlank c = false) (text : List Char) :
    (collapseChars (text ++ [c])).getLast? = some c := by
  have same := squeeze_eq_collapseChars solid text
  rw [squeeze_append_solid solid] at same
  have last := congrArg List.getLast? same
  rw [List.getLast?_concat, List.getLast?_append] at last
  obtain ⟨d, rest, known⟩ := List.exists_cons_of_ne_nil (collapseChars_append_ne_nil solid text)
  rw [known] at last ⊢
  rw [List.getLast?_cons] at last ⊢
  simpa using last.symm

end Text

namespace Shape

open ModuleAtlas.Types

variable {text : String} {c : Char}

/-- Whether a type with some text is shown on sight. -/
def isOnSight (text : String) : Bool :=
  primitiveNames.contains text || builtinNames.contains text || isLiteralText text

/-- The names that are shown on sight. -/
def sightNames : List String := primitiveNames ++ builtinNames ++ ["true", "false"]

/-- A quoted text that does not hold its quote inside. -/
def IsQuoted (text : List Char) : Prop :=
  ∃ quote body, text = quote :: (body ++ [quote]) ∧ (quote = '"' ∨ quote = '\'') ∧ quote ∉ body

variable {rest : List Char}

theorem mem_of_isEnd (ends : isEnd rest = true) : ∀ c ∈ rest, c = '\n' := by
  unfold isEnd at ends
  rcases Bool.or_eq_true_iff.mp ends with none | feed
  · rw [List.isEmpty_iff.mp none]
    exact nofun
  · rw [beq_iff_eq.mp feed]
    simp

theorem exists_digits {text : List Char} (known : afterDigits? text = some rest) :
    ∃ digits, text = digits ++ rest ∧ ∀ c ∈ digits, Text.isDigit c = true := by
  unfold afterDigits? at known
  split at known
  · cases known
    exact ⟨text.takeWhile Text.isDigit, List.takeWhile_append_dropWhile.symm,
      fun c member => by
        have taken := List.all_takeWhile (p := Text.isDigit) (l := text)
        exact List.all_eq_true.mp taken c member⟩
  · cases known

/-- The characters of a number. -/
def isNumeric (c : Char) : Bool := Text.isDigit c || c == '-' || c == '.' || c == '\n'

theorem numeric_of_isEnd (ends : isEnd rest = true) : ∀ c ∈ rest, isNumeric c = true := by
  intro c member
  rw [mem_of_isEnd ends c member]
  decide

theorem numeric_of_digits {digits : List Char} (each : ∀ c ∈ digits, Text.isDigit c = true) :
    ∀ c ∈ digits, isNumeric c = true := by
  intro c member
  simp [isNumeric, each c member]

/-- A text that is taken for a number is written with the characters of numbers. -/
theorem numeric_of_unsigned {text : List Char}
    (number : (match afterDigits? text with
      | none => false
      | some ('.' :: places) =>
        match afterDigits? places with
        | some rest => isEnd rest
        | none => false
      | some rest => isEnd rest) = true) :
    ∀ c ∈ text, isNumeric c = true := by
  split at number
  · cases number
  · rename_i fraction found
    obtain ⟨digits, rfl, each⟩ := exists_digits found
    split at number
    · rename_i more foundMore
      obtain ⟨moreDigits, rfl, eachMore⟩ := exists_digits foundMore
      simp only [List.mem_append, List.mem_cons]
      rintro c (member | rfl | member | member)
      · exact numeric_of_digits each c member
      · decide
      · exact numeric_of_digits eachMore c member
      · exact numeric_of_isEnd number c member
    · cases number
  · rename_i more _ found
    obtain ⟨digits, rfl, each⟩ := exists_digits found
    simp only [List.mem_append]
    rintro c (member | member)
    · exact numeric_of_digits each c member
    · exact numeric_of_isEnd number c member

theorem numeric_of_isNumberText {text : List Char} (number : isNumberText text = true) :
    ∀ c ∈ text, isNumeric c = true := by
  unfold isNumberText at number
  split at number
  · intro c member
    rcases List.mem_cons.mp member with rfl | later
    · decide
    · exact numeric_of_unsigned number c later
  · exact numeric_of_unsigned number

/-- A text between two quotes, with none inside, is a quoted one. -/
theorem isQuoted_of_surroundingQuote {text : List Char} {quote : Char}
    (found : surroundingQuote? text = some quote)
    (free : text.tail.dropLast.contains quote = false) :
    IsQuoted text := by
  unfold surroundingQuote? at found
  split at found
  · rename_i first rest
    split at found
    · rename_i surrounds
      cases found
      simp only [Bool.and_eq_true, Bool.or_eq_true, beq_iff_eq] at surrounds
      obtain ⟨isQuote, last⟩ := surrounds
      obtain ⟨body, rfl⟩ := List.getLast?_eq_some_iff.mp last
      exact ⟨quote, body, rfl, isQuote, by simpa using free⟩
    · cases found
  · cases found

/-- A text that is shown on sight is a name, a number or quoted. -/
theorem onSight_cases (onSight : isOnSight text = true) :
    text ∈ sightNames ∨ (∀ c ∈ text.toList, isNumeric c = true) ∨ IsQuoted text.toList := by
  unfold isOnSight isLiteralText at onSight
  simp only [Bool.or_eq_true, List.contains_iff_mem] at onSight
  rcases onSight with (name | name) | literal
  · exact .inl (by simp [sightNames, name])
  · exact .inl (by simp [sightNames, name])
  · split at literal
    · rename_i quote found
      exact .inr (.inr (isQuoted_of_surroundingQuote found (by simpa using literal)))
    · simp only [Bool.or_eq_true, beq_iff_eq] at literal
      rcases literal with (number | truth) | falsity
      · exact .inr (.inl (numeric_of_isNumberText number))
      · exact .inl (by simp [sightNames, truth])
      · exact .inl (by simp [sightNames, falsity])

/-! ## Marks -/

/-- The marks that the parts of a type are put together with. -/
def marks : List Char := ['[', ']', '(', ')', '{', '}', '<', '>', '|', '&']

/-- Of the texts that are shown on sight only quoted ones hold a mark. -/
theorem isQuoted_of_mark
    (onSight : isOnSight text = true) (isMark : c ∈ marks) (member : c ∈ text.toList) :
    IsQuoted text.toList := by
  have names : ∀ name ∈ sightNames, marks.any name.toList.contains = false := by decide
  have numbers : marks.any isNumeric = false := by decide
  rcases onSight_cases onSight with name | number | quoted
  · have free := List.any_eq_false.mp (names text name) c isMark
    exact absurd (List.contains_iff_mem.mpr member) free
  · exact absurd (number c member) (List.any_eq_false.mp numbers c isMark)
  · exact quoted

theorem isBlank_of_mark (isMark : c ∈ marks) : Text.isBlank c = false :=
  Bool.eq_false_iff.mpr (List.any_eq_false.mp (by decide) c isMark)

theorem notQuote_of_mark (isMark : c ∈ marks) : ¬ (c = '"' ∨ c = '\'') := by
  rintro (rfl | rfl) <;> exact absurd isMark (by decide)

theorem notOnSight_of_first (isMark : c ∈ marks) (first : text.toList = c :: rest) :
    isOnSight text = false := by
  refine Bool.eq_false_iff.mpr fun onSight => ?_
  obtain ⟨quote, body, same, isQuote, -⟩ :=
    isQuoted_of_mark onSight isMark (by rw [first]; exact List.mem_cons_self)
  rw [first] at same
  rw [← (List.cons.inj same).1] at isQuote
  exact notQuote_of_mark isMark isQuote

theorem notOnSight_of_last (isMark : c ∈ marks) (last : text.toList.getLast? = some c) :
    isOnSight text = false := by
  refine Bool.eq_false_iff.mpr fun onSight => ?_
  obtain ⟨quote, body, same, isQuote, -⟩ :=
    isQuoted_of_mark onSight isMark (List.mem_of_getLast? last)
  rw [same, ← List.cons_append, List.getLast?_concat] at last
  rw [Option.some.inj last] at isQuote
  exact notQuote_of_mark isMark isQuote

/-! ## Types -/

/-- A text that starts with a quote and does not hold it again. -/
def OpensQuote (text : String) : Prop :=
  ∃ quote rest, text.toList = quote :: rest ∧ (quote = '"' ∨ quote = '\'') ∧ quote ∉ rest

/-- Texts that are joined by a mark are shown on sight only if the first one opens a quote that it
does not close. -/
theorem opensQuote_of_joined {mark : Char} (isMark : mark ∈ marks) {first : String}
    (collapsed : ∃ source, first = Text.collapse source)
    (joined : text.toList = Text.collapseChars (first.toList ++ ' ' :: mark :: rest))
    (onSight : isOnSight text = true) : OpensQuote first := by
  have solidQuote : ∀ {quote : Char},
      (quote = '"' ∨ quote = '\'') → Text.isBlank quote = false := by
    rintro quote (rfl | rfl) <;> rfl
  have solid := isBlank_of_mark isMark
  have letters := Text.filter_collapseChars (first.toList ++ ' ' :: mark :: rest)
  rw [← joined] at letters
  have member : mark ∈ text.toList := by
    refine (List.mem_filter (p := fun c => !Text.isBlank c)).mp ?_ |>.1
    rw [letters]
    simp [solid]
  obtain ⟨quote, body, same, isQuote, free⟩ := isQuoted_of_mark onSight isMark member
  have solidOfQuote := solidQuote isQuote
  rw [same, List.filter_append, List.filter_cons_of_pos (by simp [solidOfQuote]),
    List.filter_append, List.filter_cons_of_pos (by simp [solidOfQuote]), List.filter_nil,
    List.filter_cons_of_neg (by decide), List.filter_cons_of_pos (by simp [solid])] at letters
  obtain ⟨source, rfl⟩ := collapsed
  cases starts : (Text.collapse source).toList with
  | nil =>
    rw [starts] at letters
    obtain ⟨sameMark, -⟩ := List.cons.inj letters
    rw [sameMark] at isQuote
    exact absurd isQuote (notQuote_of_mark isMark)
  | cons c others =>
    have visible : Text.isBlank c = false :=
      Text.solid_of_head_collapseChars (by rw [← starts, Text.collapse, String.toList_ofList])
    rw [starts, List.filter_cons_of_pos (by simp [visible]), List.cons_append] at letters
    obtain ⟨rfl, behind⟩ := List.cons.inj letters
    refine ⟨quote, others, starts, isQuote, fun again => ?_⟩
    have member : quote ∈ others.filter fun c => !Text.isBlank c :=
      List.mem_filter.mpr ⟨again, by simp [visible]⟩
    rcases List.append_eq_append_iff.mp behind with
      ⟨between, -, ends⟩ | ⟨between, inside, -⟩
    · have last : mark = quote := by
        cases between with
        | nil => exact (List.cons.inj ends).1.symm
        | cons d between => simp at ends
      rw [last] at isMark
      exact notQuote_of_mark isMark isQuote
    · have early : quote ∈ body.filter fun c => !Text.isBlank c := by
        rw [inside]
        exact List.mem_append_left _ member
      exact free (List.mem_filter.mp early).1

end Shape

end ModuleAtlas
