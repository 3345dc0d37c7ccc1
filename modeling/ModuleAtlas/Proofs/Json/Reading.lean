import ModuleAtlas.Proofs.Json.Stripped

/-!
# Reading written documents

The reader gives the value of a written document once the comments are out.  The one thing that
stops it is a comma that is still there after the last element: it waits for one more.
-/

namespace ModuleAtlas
namespace Json
namespace Parser

/-! ## Gaps -/

variable {c : Char} {text rest : List Char} {fuel room : Nat} {item : Json} {gap : Gap}

theorem skip_of_not_isSpace (notSpace : isSpace c = false) (rest : List Char) :
    skip (c :: rest) = c :: rest :=
  List.dropWhile_cons_of_neg (by rw [notSpace]; simp)

theorem isSpace_of_mem_bare (gap : Gap) : ∀ c ∈ gap.bare, isSpace c = true := by
  intro c member
  obtain ⟨filler, -, found⟩ := List.mem_flatMap.mp member
  cases filler with
  | blank other known => rwa [List.mem_singleton.mp found]
  | line text inLine =>
    rw [List.mem_singleton.mp found]
    decide
  | block text unclosed => cases found

theorem skip_bare (gap : Gap) (rest : List Char) : skip (gap.bare ++ rest) = skip rest := by
  unfold skip
  rw [List.dropWhile_append_of_pos (isSpace_of_mem_bare gap)]

theorem not_isSpace_of_starts (starts : Starts c) : isSpace c = false := by
  cases known : isSpace c with
  | false => rfl
  | true =>
    have blank := isBlank_of_isSpace known
    rw [starts.1] at blank
    cases blank

/-- What is read next after a gap is the text that starts behind it. -/
theorem skip_bare_of_starts (gap : Gap) (starts : ∃ c rest, text = c :: rest ∧ Starts c)
    (rest : List Char) : skip (gap.bare ++ (text ++ rest)) = text ++ rest := by
  obtain ⟨c, more, rfl, starts⟩ := starts
  rw [skip_bare, List.cons_append, skip_of_not_isSpace (not_isSpace_of_starts starts)]

/-! ## Strings -/

theorem stringChars_plain (usual : 0x20 ≤ c.toNat ∧ c ≠ '"' ∧ c ≠ '\\') (found rest : List Char) :
    stringChars found (c :: rest) = stringChars (c :: found) rest := by
  obtain ⟨printed, notQuote, notBackslash⟩ := usual
  have notControl : ¬c.toNat < 0x20 := by omega
  rw [stringChars, if_neg notControl] <;> simp_all

theorem stringChars_escape
    {letter meant : Char} (known : escaped? letter = some meant) (found rest : List Char) :
    stringChars found ('\\' :: letter :: rest) = stringChars (meant :: found) rest := by
  have notUnit : letter ≠ 'u' := by
    rintro rfl
    cases known
  rw [stringChars, known] <;> simp_all

/-- A code unit that no code unit follows stands for itself. -/
theorem stringChars_lone_unit {a b c d : Char} {code : Nat}
    (known : Text.hexValue? [a, b, c, d] = some code) (alone : ∀ more, rest ≠ '\\' :: 'u' :: more)
    (found : List Char) :
    stringChars found ('\\' :: 'u' :: a :: b :: c :: d :: rest) =
      stringChars (Text.ofCode code :: found) rest := by
  rw [stringChars, known] <;> simp_all

/-- Two code units are read as one character if they are the halves of a pair. -/
theorem stringChars_two_units {a b c d e f g h : Char} {first second : Nat}
    (firstKnown : Text.hexValue? [a, b, c, d] = some first)
    (secondKnown : Text.hexValue? [e, f, g, h] = some second) (found rest : List Char) :
    stringChars found ('\\' :: 'u' :: a :: b :: c :: d :: '\\' :: 'u' :: e :: f :: g :: h :: rest) =
      if Text.isHighHalf first && Text.isLowHalf second then
        stringChars (Char.ofNat (0x10000 + (first - 0xD800) * 0x400 + (second - 0xDC00)) :: found)
          rest
      else stringChars (Text.ofCode first :: found) ('\\' :: 'u' :: e :: f :: g :: h :: rest) := by
  rw [stringChars, firstKnown]
  cases high : Text.isHighHalf first <;> cases low : Text.isLowHalf second <;>
    simp [secondKnown, high, low]

/-- The reader of a string finds what was meant. -/
theorem stringChars_pieces (pieces : List Piece) (found rest : List Char) :
    stringChars found (pieces.flatMap Piece.text ++ '"' :: rest) =
      some (found.reverse ++ Piece.meaning pieces, rest) := by
  fun_induction Piece.meaning pieces generalizing found with
  | case1 => rw [List.flatMap_nil, List.nil_append, stringChars, List.append_nil]
  | case2 c usual pieces ih =>
    simp only [List.flatMap_cons, Piece.text, List.cons_append, List.nil_append]
    rw [stringChars_plain usual, ih, List.reverse_cons, List.append_assoc, List.singleton_append]
  | case3 letter meant known pieces ih =>
    simp only [List.flatMap_cons, Piece.text, List.cons_append, List.nil_append]
    rw [stringChars_escape known, ih, List.reverse_cons, List.append_assoc, List.singleton_append]
  | case4 a b c d first firstKnown e f g h second secondKnown pieces paired ih =>
    simp only [List.flatMap_cons, Piece.text, List.cons_append, List.nil_append]
    rw [stringChars_two_units firstKnown secondKnown, if_pos paired, if_pos paired,
      ih, List.reverse_cons, List.append_assoc, List.singleton_append]
  | case5 a b c d first firstKnown e f g h second secondKnown pieces apart ih =>
    have read := ih (Text.ofCode first :: found)
    simp only [List.flatMap_cons, Piece.text, List.cons_append, List.nil_append] at read ⊢
    rw [stringChars_two_units firstKnown secondKnown, if_neg apart, if_neg apart, read,
      List.reverse_cons, List.append_assoc, List.singleton_append]
  | case6 a b c d code known pieces notUnit ih =>
    have alone : ∀ more, pieces.flatMap Piece.text ++ '"' :: rest ≠ '\\' :: 'u' :: more := by
      intro more shown
      cases pieces with
      | nil => cases shown
      | cons piece pieces =>
        cases piece with
        | plain c usual => exact usual.2.2 (List.cons.inj shown).1
        | escape letter meant letterKnown =>
          have isUnit := (List.cons.inj (List.cons.inj shown).2).1
          rw [isUnit] at letterKnown
          cases letterKnown
        | unit a b c d low lowKnown => exact notUnit a b c d low lowKnown pieces rfl
    simp only [List.flatMap_cons, Piece.text, List.cons_append, List.nil_append]
    rw [stringChars_lone_unit known alone, ih, List.reverse_cons,
      List.append_assoc, List.singleton_append]

theorem quoted_pieces (pieces : List Piece) (rest : List Char) :
    quoted (pieces.flatMap Piece.text ++ '"' :: rest) =
      .ok (String.ofList (Piece.meaning pieces), rest) := by
  rw [quoted, stringChars_pieces]
  rfl

/-! ## Numbers -/

/-- A text that does not go on with a digit. -/
def EndsDigits (rest : List Char) : Prop := ∀ c ∈ rest.head?, c.isDigit = false

/-- A text that no number can go on with. -/
def Stops (rest : List Char) : Prop :=
  ∀ c ∈ rest.head?, c.isDigit = false ∧ c ≠ '.' ∧ c ≠ 'e' ∧ c ≠ 'E'

theorem Stops.endsDigits (stops : Stops rest) : EndsDigits rest :=
  fun c head => (stops c head).1

theorem takeWhile_digits (digits : Digits) (ends : EndsDigits rest) :
    (digits.chars ++ rest).takeWhile Char.isDigit = digits.chars := by
  rw [List.takeWhile_append_of_pos digits.digits]
  cases rest with
  | nil => exact List.append_nil _
  | cons c rest => rw [List.takeWhile_cons_of_neg (by simp [ends c rfl]), List.append_nil]

theorem dropWhile_digits (digits : Digits) (ends : EndsDigits rest) :
    (digits.chars ++ rest).dropWhile Char.isDigit = rest := by
  rw [List.dropWhile_append_of_pos digits.digits]
  cases rest with
  | nil => rfl
  | cons c rest => exact List.dropWhile_cons_of_neg (by simp [ends c rfl])

/-- The places behind the point are read back from their text. -/
theorem fraction_placesText (places : Option Digits) (ends : EndsDigits rest)
    (noPoint : ∀ c ∈ rest.head?, c ≠ '.') :
    fraction (Numeral.placesText places ++ rest) = (Numeral.placesText places, rest) := by
  cases places with
  | none =>
    change fraction rest = ([], rest)
    unfold fraction
    split
    · exact absurd rfl (noPoint _ rfl)
    · rfl
  | some digits =>
    change fraction ('.' :: (digits.chars ++ rest)) = ('.' :: digits.chars, rest)
    simp only [fraction, takeWhile_digits digits ends, dropWhile_digits digits ends]
    rw [if_neg (by simpa using digits.nonempty)]

/-- The sign of an exponent is read before its digits. -/
theorem exponent_exponentText (power : Option Exponent) (stops : Stops rest) :
    exponent (Numeral.exponentText power ++ rest) = (Numeral.exponentText power, rest) := by
  cases power with
  | none =>
    change exponent rest = ([], rest)
    unfold exponent
    split
    · rename_i e more
      have notLetter : ¬(e = 'e' ∨ e = 'E') := not_or.mpr (stops e rfl).2.2
      rw [if_neg notLetter]
    · rfl
  | some power =>
    obtain ⟨letter, sign, digits, isLetter, isSign⟩ := power
    have taken := takeWhile_digits digits stops.endsDigits
    have dropped := dropWhile_digits digits stops.endsDigits
    have some : digits.chars.isEmpty = false := by simpa using digits.nonempty
    rcases isSign with rfl | rfl | rfl
    · have unsigned : ∀ c more, digits.chars ++ rest = c :: more → c ≠ '+' ∧ c ≠ '-' := by
        intro c more shown
        obtain ⟨first, others, digitsCons⟩ := List.exists_cons_of_ne_nil digits.nonempty
        have isDigit := digits.digits first (by rw [digitsCons]; exact List.mem_cons_self)
        rw [digitsCons, List.cons_append] at shown
        rw [(List.cons.inj shown).1] at isDigit
        constructor <;>
          · rintro rfl
            exact absurd isDigit (by decide)
      simp only [Numeral.exponentText, exponent, List.nil_append, List.cons_append]
      rw [if_pos isLetter]
      split
      · rename_i more shown
        exact absurd rfl (unsigned _ more shown).1
      · rename_i more shown
        exact absurd rfl (unsigned _ more shown).2
      · rw [taken, dropped, some]
        rfl
    · simp [Numeral.exponentText, exponent, isLetter, taken, dropped, some]
    · simp [Numeral.exponentText, exponent, isLetter, taken, dropped, some]

theorem endsDigits_exponentText (power : Option Exponent) (stops : Stops rest) :
    EndsDigits (Numeral.exponentText power ++ rest) ∧
      ∀ c ∈ (Numeral.exponentText power ++ rest).head?, c ≠ '.' := by
  cases power with
  | none => exact ⟨stops.endsDigits, fun c head => (stops c head).2.1⟩
  | some power =>
    have head : (Numeral.exponentText (some power) ++ rest).head? = some power.letter := rfl
    unfold EndsDigits
    rw [head]
    simp only [Option.mem_some, forall_eq']
    rcases power.isLetter with letter | letter <;> rw [letter] <;> decide

theorem endsDigits_placesText (places : Option Digits) (ends : EndsDigits rest) :
    EndsDigits (Numeral.placesText places ++ rest) := by
  cases places with
  | none => exact ends
  | some digits =>
    intro c head
    cases head
    decide

/-- A number is read as a whole where nothing after it can belong to it. -/
theorem number_numeral (numeral : Numeral) (stops : Stops rest) :
    number numeral.negative (numeral.whole.chars ++ (Numeral.placesText numeral.places
      ++ (Numeral.exponentText numeral.exponent ++ rest))) = .ok (numeral.value, rest) := by
  obtain ⟨exponentEnds, noPoint⟩ := endsDigits_exponentText numeral.exponent stops
  have placesEnds := endsDigits_placesText numeral.places exponentEnds
  have taken := takeWhile_digits numeral.whole placesEnds
  have dropped := dropWhile_digits numeral.whole placesEnds
  have places := fraction_placesText numeral.places exponentEnds noPoint
  have power := exponent_exponentText numeral.exponent stops
  have finished :
      (if numeral.whole.chars.isEmpty then Except.error Fault.malformed
      else if (Numeral.placesText numeral.places).isEmpty
          && (Numeral.exponentText numeral.exponent).isEmpty then
        if digitLimit < numeral.whole.chars.length then Except.error Fault.longNumber
        else Except.ok (Json.int (if numeral.negative then -(Text.natOf numeral.whole.chars : Int)
          else Text.natOf numeral.whole.chars), rest)
      else Except.ok (Json.decimal (String.ofList ((if numeral.negative then ['-'] else [])
        ++ numeral.whole.chars ++ Numeral.placesText numeral.places
          ++ Numeral.exponentText numeral.exponent)), rest)) = .ok (numeral.value, rest) := by
    have placesNone : (Numeral.placesText numeral.places).isEmpty = numeral.places.isNone := by
      cases numeral.places <;> rfl
    have powerNone : (Numeral.exponentText numeral.exponent).isEmpty = numeral.exponent.isNone := by
      cases numeral.exponent <;> rfl
    rw [if_neg (by simpa using numeral.whole.nonempty), placesNone, powerNone, Numeral.value]
    split
    · rename_i plain
      obtain ⟨noPlaces, noExponent⟩ := Bool.and_eq_true_iff.mp plain
      have short := numeral.short (Option.isNone_iff_eq_none.mp noPlaces)
        (Option.isNone_iff_eq_none.mp noExponent)
      rw [if_neg (by omega)]
    · rfl
  unfold number
  simp only [taken]
  split
  · rename_i digits more zero
    have single : numeral.whole.chars = ['0'] := by rw [zero, numeral.leading more zero]
    rw [single] at finished ⊢
    simp only [List.singleton_append, List.drop_succ_cons, List.drop_zero, places, power]
    exact finished
  · simp only [dropped, places, power]
    exact finished

/-! ## Values without parts -/

theorem word?_of_first (first : c ∉ ['n', 't', 'f', 'N', 'I', '-']) (rest : List Char) :
    word? (c :: rest) = none := by
  simp only [List.mem_cons, List.not_mem_nil, or_false, not_or] at first
  obtain ⟨n, t, f, upperN, upperI, minus⟩ := first
  simp [word?, words, Ne.symm n, Ne.symm t, Ne.symm f, Ne.symm upperN, Ne.symm upperI,
    Ne.symm minus]

theorem word?_of_minus (second : c ≠ 'I') (rest : List Char) : word? ('-' :: c :: rest) = none := by
  simp [word?, words, Ne.symm second]

/-- What starts with no quote and no bracket is a word or a number. -/
theorem value_of_plain (plain : c ≠ '"' ∧ c ≠ '[' ∧ c ≠ '\x7b') (rest : List Char) (fuel : Nat) :
    value (fuel + 1) room (c :: rest) =
      match word? (c :: rest) with
      | some found => .ok found
      | none =>
        match c :: rest with
        | '-' :: rest => number true rest
        | text => number false text := by
  obtain ⟨notQuote, notBracket, notBrace⟩ := plain
  unfold value
  split
  · rename_i quote
    exact absurd (List.cons.inj quote).1 notQuote
  · rename_i bracket
    exact absurd (List.cons.inj bracket).1 notBracket
  · rename_i brace
    exact absurd (List.cons.inj brace).1 notBrace
  · rfl

theorem value_of_word (plain : c ≠ '"' ∧ c ≠ '[' ∧ c ≠ '\x7b') {found : Json × List Char}
    (isWord : word? (c :: rest) = some found) (fuel : Nat) :
    value (fuel + 1) room (c :: rest) = .ok found := by
  rw [value_of_plain plain, isWord]

theorem value_of_number (plain : c ≠ '"' ∧ c ≠ '[' ∧ c ≠ '\x7b')
    (noWord : word? (c :: rest) = none) (fuel : Nat) :
    value (fuel + 1) room (c :: rest) =
      if c = '-' then number true rest else number false (c :: rest) := by
  rw [value_of_plain plain, noWord]
  simp only
  split
  · rename_i minus
    obtain ⟨rfl, rfl⟩ := List.cons.inj minus
    rfl
  · rename_i noMinus
    exact (if_neg fun minus => noMinus rest (by rw [minus])).symm

/-- What starts with a digit is read as a number. -/
theorem value_of_digit (isDigit : c.isDigit = true) (rest : List Char) (fuel : Nat) :
    value (fuel + 1) room (c :: rest) = number false (c :: rest) := by
  have noWord : word? (c :: rest) = none := by
    refine word?_of_first ?_ rest
    intro member
    simp only [List.mem_cons, List.not_mem_nil, or_false] at member
    rcases member with rfl | rfl | rfl | rfl | rfl | rfl <;> exact absurd isDigit (by decide)
  have differs : ∀ other : Char, other.isDigit = false → c ≠ other := by
    rintro other notDigit rfl
    rw [notDigit] at isDigit
    cases isDigit
  have plain : c ≠ '"' ∧ c ≠ '[' ∧ c ≠ '\x7b' := ⟨differs _ rfl, differs _ rfl, differs _ rfl⟩
  rw [value_of_number plain noWord, if_neg (differs '-' rfl)]

theorem value_of_minus (isDigit : c.isDigit = true) (rest : List Char) (fuel : Nat) :
    value (fuel + 1) room ('-' :: c :: rest) = number true (c :: rest) := by
  have noWord : word? ('-' :: c :: rest) = none := by
    refine word?_of_minus ?_ rest
    rintro rfl
    exact absurd isDigit (by decide)
  rw [value_of_number (by decide) noWord, if_pos rfl]

/-- A number is read back from its text, whatever follows that ends it. -/
theorem value_numeral (numeral : Numeral) (stops : Stops rest) (fuel : Nat) :
    value (fuel + 1) room (numeral.text ++ rest) = .ok (numeral.value, rest) := by
  have read := number_numeral numeral stops
  obtain ⟨first, more, wholeCons⟩ := List.exists_cons_of_ne_nil numeral.whole.nonempty
  have isDigit := numeral.whole.digits first (by rw [wholeCons]; exact List.mem_cons_self)
  rw [wholeCons, List.cons_append] at read
  simp only [Numeral.text, List.append_assoc]
  rw [wholeCons, List.cons_append]
  cases negative : numeral.negative with
  | true =>
    rw [negative] at read
    rw [← read]
    exact value_of_minus isDigit _ fuel
  | false =>
    rw [negative] at read
    rw [← read]
    exact value_of_digit isDigit _ fuel

theorem value_quoted (pieces : List Piece) (rest : List Char) (fuel : Nat) :
    value (fuel + 1) room (Piece.quoted pieces ++ rest) =
      .ok (.string (String.ofList (Piece.meaning pieces)), rest) := by
  simp only [Piece.quoted, List.cons_append, List.append_assoc, List.nil_append]
  change (quoted (pieces.flatMap Piece.text ++ '"' :: rest)).bind _ = _
  rw [quoted_pieces]
  rfl

/-! ## Values with parts -/

/-- What comes after an element stops a number: the rest of a gap, then a mark. -/
theorem stops_bare (stops : Stops rest) (gap : Gap) : Stops (gap.bare ++ rest) := by
  cases bareCons : gap.bare with
  | nil => exact stops
  | cons c more =>
    have isSpace := isSpace_of_mem_bare gap c (by rw [bareCons]; exact List.mem_cons_self)
    intro other head
    cases head
    rcases isSpace_iff.mp isSpace with rfl | rfl | rfl | rfl <;> decide

theorem stops_ending (closes : c = ']' ∨ c = '\x7d') (comma : Option Gap) (rest : List Char) :
    Stops (Showing.bare.ending comma ++ c :: rest) := by
  have stops : Stops (c :: rest) := by
    intro other head
    cases head
    rcases closes with rfl | rfl <;> decide
  cases comma with
  | none => exact stops
  | some gap =>
    change Stops ((if gap.isBlank then gap.bare else ',' :: gap.bare) ++ c :: rest)
    split
    · exact stops_bare stops gap
    · intro other head
      cases head
      decide

theorem stops_comma (rest : List Char) : Stops (',' :: rest) := by
  intro other head
  cases head
  decide

theorem value_of_closing (closes : c = ']' ∨ c = '\x7d') (rest : List Char) (fuel : Nat) :
    value fuel room (c :: rest) = .error .malformed := by
  cases fuel with
  | zero => rfl
  | succ fuel =>
    have noWord : word? (c :: rest) = none := by
      refine word?_of_first ?_ rest
      rcases closes with rfl | rfl <;> decide
    have notDigit : c.isDigit = false := by
      rcases closes with rfl | rfl <;> decide
    have notMinus : c ≠ '-' := by
      rcases closes with rfl | rfl <;> decide
    have plain : c ≠ '"' ∧ c ≠ '[' ∧ c ≠ '\x7b' := by
      rcases closes with rfl | rfl <;> decide
    have malformed : number false (c :: rest) = .error .malformed := by
      simp [number, notDigit]
    rw [value_of_number plain noWord, if_neg notMinus, malformed]

theorem value_bracket (rest : List Char) (fuel : Nat) :
    value (fuel + 1) (room + 1) ('[' :: rest) =
      match skip rest with
      | ']' :: rest => .ok (.array [], rest)
      | rest => do
        let (found, rest) ← items fuel room [] rest
        return (.array found, rest) :=
  rfl

theorem value_brace (rest : List Char) (fuel : Nat) :
    value (fuel + 1) (room + 1) ('\x7b' :: rest) =
      match skip rest with
      | '\x7d' :: rest => .ok (.object [], rest)
      | rest => do
        let (found, rest) ← entries fuel room [] rest
        return (.object (Keyed.ofPairs found), rest) :=
  rfl

theorem value_array (gap : Gap) (starts : ∃ c rest, text = c :: rest ∧ Starts c)
    (rest : List Char) (fuel : Nat) :
    value (fuel + 1) (room + 1) ('[' :: (gap.bare ++ (text ++ rest))) =
      (items fuel room [] (text ++ rest)).map fun (found, rest) => (.array found, rest) := by
  rw [value_bracket, skip_bare_of_starts gap starts]
  obtain ⟨c, more, rfl, starts⟩ := starts
  split
  · rename_i closing
    exact absurd (List.cons.inj closing).1 starts.2.1
  · cases items fuel room [] (c :: more ++ rest) <;> rfl

theorem value_object (gap : Gap) (starts : ∃ c rest, text = c :: rest ∧ Starts c)
    (rest : List Char) (fuel : Nat) :
    value (fuel + 1) (room + 1) ('\x7b' :: (gap.bare ++ (text ++ rest))) =
      (entries fuel room [] (text ++ rest)).map fun (found, rest) =>
        (.object (Keyed.ofPairs found), rest) := by
  rw [value_brace, skip_bare_of_starts gap starts]
  obtain ⟨c, more, rfl, starts⟩ := starts
  split
  · rename_i closing
    exact absurd (List.cons.inj closing).1 starts.2.2
  · cases entries fuel room [] (c :: more ++ rest) <;> rfl

/-! ## Items and entries -/

theorem items_succ (fuel : Nat) (found : List Json) (text : List Char) :
    items (fuel + 1) room found text = (do
      let (item, rest) ← value fuel room text
      match skip rest with
      | ',' :: rest => items fuel room (item :: found) (skip rest)
      | ']' :: rest => return ((item :: found).reverse, rest)
      | _ => throw .malformed) :=
  rfl

theorem entries_quote (fuel : Nat) (found : List (String × Json)) (rest : List Char) :
    entries (fuel + 1) room found ('"' :: rest) = (do
      let (key, rest) ← quoted rest
      match skip rest with
      | ':' :: rest =>
        let (item, rest) ← value fuel room (skip rest)
        let found := (key, item) :: found
        match skip rest with
        | ',' :: rest => entries fuel room found (skip rest)
        | '\x7d' :: rest => return (found.reverse, rest)
        | _ => throw .malformed
      | _ => throw .malformed) :=
  rfl

theorem items_of_closing (fuel : Nat) (found : List Json) (rest : List Char) :
    items fuel room found (']' :: rest) = .error .malformed := by
  cases fuel with
  | zero => rfl
  | succ fuel =>
    rw [items_succ, value_of_closing (.inl rfl)]
    rfl

theorem entries_of_closing (fuel : Nat) (found : List (String × Json)) (rest : List Char) :
    entries fuel room found ('\x7d' :: rest) = .error .malformed := by
  cases fuel <;> rfl

/-- After the last item the bracket is found if the comma is out; the comma makes the reader wait
for one more item. -/
theorem items_of_last {comma : Option Gap}
    (read : value fuel room text =
      .ok (item, gap.bare ++ (Showing.bare.ending comma ++ ']' :: rest)))
    (found : List Json) :
    items (fuel + 1) room found text =
      if isClear comma then .ok (found.reverse ++ [item], rest) else .error .malformed := by
  have atBracket : skip (']' :: rest) = ']' :: rest := skip_of_not_isSpace (by decide) rest
  rw [items_succ, read]
  simp only [bind, Except.bind]
  rw [skip_bare]
  cases comma with
  | none =>
    simp only [Showing.ending, isClear, List.nil_append, atBracket, List.reverse_cons, if_true]
    rfl
  | some gap =>
    have atComma : ∀ more, skip (',' :: more) = ',' :: more := skip_of_not_isSpace (by decide)
    rcases Bool.eq_false_or_eq_true gap.isBlank with blank | blank
    · simp only [Showing.ending, Showing.bare, isClear, blank, if_true, skip_bare, atBracket,
        List.reverse_cons]
      rfl
    · simp only [Showing.ending, Showing.bare, isClear, blank, Bool.false_eq_true, if_false,
        List.cons_append, atComma, skip_bare, atBracket, items_of_closing]

theorem items_of_more {after : Gap} {next : List Char}
    (starts : ∃ c rest, next = c :: rest ∧ Starts c)
    (read : value fuel room text = .ok (item, gap.bare ++ ',' :: (after.bare ++ (next ++ rest))))
    (found : List Json) :
    items (fuel + 1) room found text = items fuel room (item :: found) (next ++ rest) := by
  rw [items_succ, read]
  simp only [bind, Except.bind]
  rw [skip_bare, skip_of_not_isSpace (by decide)]
  simp only [skip_bare_of_starts after starts]

section

variable (label : Label) (starts : ∃ c rest, text = c :: rest ∧ Starts c)

include label starts

/-- A key and its colon are read up to the value. -/
theorem entries_of_label (rest : List Char) (fuel : Nat) (found : List (String × Json)) :
    entries (fuel + 1) room found (label.shown .bare ++ (text ++ rest)) = (do
      let (item, rest) ← value fuel room (text ++ rest)
      let found := (String.ofList (Piece.meaning label.key), item) :: found
      match skip rest with
      | ',' :: rest => entries fuel room found (skip rest)
      | '\x7d' :: rest => return (found.reverse, rest)
      | _ => throw .malformed) := by
  simp only [Label.shown, Piece.quoted, List.append_assoc, List.cons_append, List.nil_append]
  change entries (fuel + 1) room found ('"' :: (label.key.flatMap Piece.text ++ '"' ::
    (label.before.bare ++ ':' :: (label.after.bare ++ (text ++ rest))))) = _
  rw [entries_quote, quoted_pieces]
  have reached := skip_bare_of_starts label.after starts rest
  simp only [bind, Except.bind]
  rw [skip_bare, skip_of_not_isSpace (by decide)]
  simp only
  generalize skip (label.after.bare ++ (text ++ rest)) = onward at reached ⊢
  subst reached
  rfl

/-- After the last entry the brace is found if the comma is out; the comma makes the reader wait for
one more key. -/
theorem entries_of_last {tail : List Char} {comma : Option Gap}
    (read : value fuel room (text ++ tail) =
      .ok (item, gap.bare ++ (Showing.bare.ending comma ++ '\x7d' :: rest)))
    (found : List (String × Json)) :
    entries (fuel + 1) room found (label.shown .bare ++ (text ++ tail)) =
      if isClear comma then
        .ok (found.reverse ++ [(String.ofList (Piece.meaning label.key), item)], rest)
      else .error .malformed := by
  have atBrace : skip ('\x7d' :: rest) = '\x7d' :: rest := skip_of_not_isSpace (by decide) rest
  rw [entries_of_label label starts, read]
  simp only [bind, Except.bind]
  rw [skip_bare]
  cases comma with
  | none =>
    simp only [Showing.ending, isClear, List.nil_append, atBrace, List.reverse_cons, if_true]
    rfl
  | some gap =>
    have atComma : ∀ more, skip (',' :: more) = ',' :: more := skip_of_not_isSpace (by decide)
    rcases Bool.eq_false_or_eq_true gap.isBlank with blank | blank
    · simp only [Showing.ending, Showing.bare, isClear, blank, if_true, skip_bare, atBrace,
        List.reverse_cons]
      rfl
    · simp only [Showing.ending, Showing.bare, isClear, blank, Bool.false_eq_true, if_false,
        List.cons_append, atComma, skip_bare, atBrace, entries_of_closing]

theorem entries_of_more {tail : List Char} {after : Gap} {next : List Char}
    (nextStarts : ∃ c rest, next = c :: rest ∧ Starts c)
    (read : value fuel room (text ++ tail) =
      .ok (item, gap.bare ++ ',' :: (after.bare ++ (next ++ rest))))
    (found : List (String × Json)) :
    entries (fuel + 1) room found (label.shown .bare ++ (text ++ tail)) =
      entries fuel room ((String.ofList (Piece.meaning label.key), item) :: found)
        (next ++ rest) := by
  rw [entries_of_label label starts, read]
  simp only [bind, Except.bind]
  rw [skip_bare, skip_of_not_isSpace (by decide)]
  simp only [skip_bare_of_starts after nextStarts]

end

/-! ## Written values -/

theorem exists_room {depth : Nat} (deeper : depth + 1 ≤ room) :
    ∃ less, room = less + 1 ∧ depth ≤ less :=
  ⟨room - 1, by omega, by omega⟩

mutual

/-- The reader gives the value of what is written if every last comma is out, and nothing
otherwise. -/
theorem value_shown (item : Written) {rest : List Char} (stops : Stops rest) {fuel room : Nat}
    (enough : 2 * (item.shown .bare).length ≤ fuel) (shallow : item.depth ≤ room) :
    value fuel room (item.shown .bare ++ rest) =
      if item.commasClear then .ok (item.value, rest) else .error .malformed := by
  obtain ⟨fuel, rfl⟩ : ∃ less, fuel = less + 1 := by
    obtain ⟨first, others, shownCons, -⟩ := item.starts .bare
    rw [shownCons, List.length_cons] at enough
    exact ⟨fuel - 1, by omega⟩
  cases item with
  | null => exact value_of_word (by decide) rfl fuel
  | truth truth =>
    cases truth with
    | true => exact value_of_word (by decide) rfl fuel
    | false => exact value_of_word (by decide) rfl fuel
  | number numeral => exact value_numeral numeral stops fuel
  | string pieces => exact value_quoted pieces rest fuel
  | emptyArray gap =>
    obtain ⟨room, rfl, -⟩ := exists_room shallow
    simp only [Written.shown, List.cons_append, List.append_assoc, List.nil_append]
    change value (fuel + 1) (room + 1) ('[' :: (gap.bare ++ ']' :: rest)) = _
    rw [value_bracket, skip_bare, skip_of_not_isSpace (by decide)]
    rfl
  | array gap written =>
    obtain ⟨room, rfl, partsShallow⟩ : ∃ less, room = less + 1 ∧ written.depth ≤ less :=
      exists_room shallow
    simp only [Written.shown, List.cons_append, List.append_assoc, List.nil_append,
      List.length_cons, List.length_append] at enough ⊢
    have inside : 2 * (written.shown .bare).length + 1 ≤ fuel := by omega
    have read := items_shown written [] rest inside partsShallow
    change value (fuel + 1) (room + 1) ('[' :: (gap.bare ++ (written.shown .bare ++ ']' :: rest))) =
      if written.commasClear then .ok (.array written.values, rest) else .error .malformed
    rw [value_array gap (written.starts .bare), read]
    cases written.commasClear <;> rfl
  | emptyObject gap =>
    obtain ⟨room, rfl, -⟩ := exists_room shallow
    simp only [Written.shown, List.cons_append, List.append_assoc, List.nil_append]
    change value (fuel + 1) (room + 1) ('\x7b' :: (gap.bare ++ '\x7d' :: rest)) = _
    rw [value_brace, skip_bare, skip_of_not_isSpace (by decide)]
    rfl
  | object gap written =>
    obtain ⟨room, rfl, partsShallow⟩ : ∃ less, room = less + 1 ∧ written.depth ≤ less :=
      exists_room shallow
    simp only [Written.shown, List.cons_append, List.append_assoc, List.nil_append,
      List.length_cons, List.length_append] at enough ⊢
    have inside : 2 * (written.shown .bare).length + 1 ≤ fuel := by omega
    have read := entries_shown written [] rest inside partsShallow
    change value (fuel + 1) (room + 1)
      ('\x7b' :: (gap.bare ++ (written.shown .bare ++ '\x7d' :: rest))) =
      if written.commasClear then .ok (.object (Keyed.ofPairs written.pairs), rest)
      else .error .malformed
    rw [value_object gap (written.starts .bare), read]
    cases written.commasClear <;> rfl

/-- The items of an array are read back, unless a comma stays before the bracket. -/
theorem items_shown (written : Items) (found : List Json) (rest : List Char) {fuel room : Nat}
    (enough : 2 * (written.shown .bare).length + 1 ≤ fuel) (shallow : written.depth ≤ room) :
    items fuel room found (written.shown .bare ++ ']' :: rest) =
      if written.commasClear then .ok (found.reverse ++ written.values, rest)
      else .error .malformed := by
  obtain ⟨fuel, rfl⟩ : ∃ less, fuel = less + 1 := ⟨fuel - 1, by omega⟩
  cases written with
  | last item gap comma =>
    have itemShallow : item.depth ≤ room := shallow
    simp only [Items.shown, List.append_assoc, List.length_append] at enough ⊢
    have stops := stops_bare (stops_ending (.inl rfl) comma rest) gap
    have here : 2 * (item.shown .bare).length ≤ fuel := by omega
    have read := value_shown item stops here itemShallow
    change items (fuel + 1) room found (item.shown .bare ++
      (gap.bare ++ (Showing.bare.ending comma ++ ']' :: rest))) =
        if item.commasClear && isClear comma then .ok (found.reverse ++ [item.value], rest)
        else .error .malformed
    cases clear : item.commasClear with
    | true =>
      rw [clear, if_pos rfl] at read
      rw [items_of_last read, Bool.true_and]
    | false =>
      rw [clear, if_neg (by simp)] at read
      rw [items_succ, read]
      rfl
  | more item gap after others =>
    obtain ⟨itemShallow, othersShallow⟩ := Nat.max_le.mp shallow
    simp only [Items.shown, List.append_assoc, List.cons_append, List.length_append,
      List.length_cons] at enough ⊢
    have stops := stops_bare (stops_comma (after.bare ++ (others.shown .bare ++ ']' :: rest))) gap
    have here : 2 * (item.shown .bare).length ≤ fuel := by omega
    have read := value_shown item stops here itemShallow
    have left : 2 * (others.shown .bare).length + 1 ≤ fuel := by omega
    have onward := items_shown others (item.value :: found) rest left othersShallow
    change items (fuel + 1) room found (item.shown .bare ++
      (gap.bare ++ ',' :: (after.bare ++ (others.shown .bare ++ ']' :: rest)))) =
        if item.commasClear && others.commasClear then
          .ok (found.reverse ++ item.value :: others.values, rest)
        else .error .malformed
    cases clear : item.commasClear with
    | true =>
      rw [clear, if_pos rfl] at read
      rw [items_of_more (others.starts .bare) read, onward, Bool.true_and, List.reverse_cons,
        List.append_assoc, List.singleton_append]
    | false =>
      rw [clear, if_neg (by simp)] at read
      rw [items_succ, read]
      rfl

/-- The entries of an object are read back, unless a comma stays before the brace. -/
theorem entries_shown
    (written : Entries) (found : List (String × Json)) (rest : List Char) {fuel room : Nat}
    (enough : 2 * (written.shown .bare).length + 1 ≤ fuel) (shallow : written.depth ≤ room) :
    entries fuel room found (written.shown .bare ++ '\x7d' :: rest) =
      if written.commasClear then .ok (found.reverse ++ written.pairs, rest)
      else .error .malformed := by
  obtain ⟨fuel, rfl⟩ : ∃ less, fuel = less + 1 := ⟨fuel - 1, by omega⟩
  cases written with
  | last label item gap comma =>
    have itemShallow : item.depth ≤ room := shallow
    simp only [Entries.shown, List.append_assoc, List.length_append] at enough ⊢
    have stops := stops_bare (stops_ending (.inr rfl) comma rest) gap
    have here : 2 * (item.shown .bare).length ≤ fuel := by omega
    have read := value_shown item stops here itemShallow
    change entries (fuel + 1) room found (label.shown .bare ++ (item.shown .bare ++
      (gap.bare ++ (Showing.bare.ending comma ++ '\x7d' :: rest)))) =
        if item.commasClear && isClear comma then
          .ok (found.reverse ++ [(String.ofList (Piece.meaning label.key), item.value)], rest)
        else .error .malformed
    cases clear : item.commasClear with
    | true =>
      rw [clear, if_pos rfl] at read
      rw [entries_of_last label (item.starts .bare) read, Bool.true_and]
    | false =>
      rw [clear, if_neg (by simp)] at read
      rw [entries_of_label label (item.starts .bare), read]
      rfl
  | more label item gap after others =>
    obtain ⟨itemShallow, othersShallow⟩ := Nat.max_le.mp shallow
    simp only [Entries.shown, List.append_assoc, List.cons_append, List.length_append,
      List.length_cons] at enough ⊢
    have stops := stops_bare
      (stops_comma (after.bare ++ (others.shown .bare ++ '\x7d' :: rest))) gap
    have here : 2 * (item.shown .bare).length ≤ fuel := by omega
    have read := value_shown item stops here itemShallow
    have left : 2 * (others.shown .bare).length + 1 ≤ fuel := by omega
    have onward := entries_shown others
      ((String.ofList (Piece.meaning label.key), item.value) :: found) rest left othersShallow
    change entries (fuel + 1) room found (label.shown .bare ++ (item.shown .bare ++
      (gap.bare ++ ',' :: (after.bare ++ (others.shown .bare ++ '\x7d' :: rest))))) =
        if item.commasClear && others.commasClear then
          .ok (found.reverse ++
            (String.ofList (Piece.meaning label.key), item.value) :: others.pairs, rest)
        else .error .malformed
    cases clear : item.commasClear with
    | true =>
      rw [clear, if_pos rfl] at read
      rw [entries_of_more label (item.starts .bare) (others.starts .bare) read, onward,
        Bool.true_and, List.reverse_cons, List.append_assoc, List.singleton_append]
    | false =>
      rw [clear, if_neg (by simp)] at read
      rw [entries_of_label label (item.starts .bare), read]
      rfl

end

end Parser

/-- A written document without its comments is read if every last comma is out. -/
theorem parse_bare (document : Document) :
    parse document.bare =
      if document.body.commasClear then .ok document.body.value else .error .malformed := by
  have stops : Parser.Stops document.after.bare := by
    have nothing : Parser.Stops [] := fun c head => by cases head
    have ended := Parser.stops_bare nothing document.after
    rwa [List.append_nil] at ended
  have atEnd : Parser.skip document.after.bare = [] := by
    have skipped := Parser.skip_bare document.after []
    rwa [List.append_nil] at skipped
  have enough : 2 * (document.body.shown .bare).length ≤ 2 * document.bare.length + 2 := by
    simp only [Document.bare, List.length_append]
    omega
  have read := Parser.value_shown document.body stops enough document.shallow
  have atBody : Parser.skip document.bare = document.body.shown .bare ++ document.after.bare := by
    rw [Document.bare, List.append_assoc,
      Parser.skip_bare_of_starts document.before (document.body.starts .bare)]
  unfold parse
  rw [atBody, read]
  cases document.body.commasClear with
  | true =>
    change (if (Parser.skip document.after.bare).isEmpty then Except.ok document.body.value
      else Except.error Fault.malformed) = _
    rw [atEnd]
    rfl
  | false => rfl

end Json
end ModuleAtlas
