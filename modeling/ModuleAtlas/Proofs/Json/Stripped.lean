import ModuleAtlas.Proofs.Json.Written

/-!
# Documents without their comments

The scanner for comments stays in step with the tokens of a written document: a string is stepped
over as a whole, a comment ends where it was meant to end, and a comma is dropped exactly when it is
the last one and only white space parts it from its bracket.
-/

namespace ModuleAtlas
namespace Json

namespace Comments

/-! ## Steps of the scanner -/

theorem scan_zero (keep : Bool) (text : List Char) : scan keep 0 text = scan true 0 text := by
  cases text <;> rfl

/-- The characters that belong to a token share its fate. -/
theorem scan_counted (keep : Bool) (counted rest : List Char) :
    scan keep counted.length (counted ++ rest) =
      (if keep then counted else []) ++ scan true 0 rest := by
  induction counted with
  | nil =>
    rw [List.length_nil, List.nil_append, scan_zero, ite_self, List.nil_append]
  | cons c counted ih =>
    rw [List.length_cons, List.cons_append, scan, ih]
    cases keep <;> rfl

/-- A token is kept or dropped as a whole. -/
theorem scan_token {c : Char} {counted rest : List Char} {keep : Bool}
    (isToken : token c (counted ++ rest) = (keep, counted.length)) :
    scan true 0 (c :: counted ++ rest) =
      (if keep then c :: counted else []) ++ scan true 0 rest := by
  rw [List.cons_append, scan, isToken]
  cases keep with
  | true =>
    rw [if_pos rfl, scan_counted]
    rfl
  | false =>
    rw [if_neg (by simp), scan_counted]
    rfl

/-- A character that starts no string and no comment and is no comma. -/
def IsOrdinary (c : Char) : Prop := c ≠ '"' ∧ c ≠ '/' ∧ c ≠ ','

instance : DecidablePred IsOrdinary := fun c =>
  inferInstanceAs (Decidable (c ≠ '"' ∧ c ≠ '/' ∧ c ≠ ','))

theorem token_of_ordinary {c : Char} (ordinary : IsOrdinary c) (rest : List Char) :
    token c rest = (true, 0) := by
  obtain ⟨notQuote, notSlash, notComma⟩ := ordinary
  unfold token
  split <;> simp_all

/-- Text without quotes, slashes and commas is kept as it is. -/
theorem scan_ordinary {text : List Char} (ordinary : ∀ c ∈ text, IsOrdinary c) (rest : List Char) :
    scan true 0 (text ++ rest) = text ++ scan true 0 rest := by
  induction text with
  | nil => rfl
  | cons c text ih =>
    have isToken : token c ([] ++ (text ++ rest)) = (true, ([] : List Char).length) :=
      token_of_ordinary (ordinary c List.mem_cons_self) _
    have here := scan_token isToken
    rw [if_pos rfl, List.singleton_append, List.singleton_append] at here
    rw [List.cons_append, here,
      ih fun other member => ordinary other (List.mem_cons_of_mem _ member)]
    rfl

end Comments

/-! ## Gaps -/

variable {c : Char} {text : List Char}

theorem Parser.isSpace_iff :
    Parser.isSpace c = true ↔ c = ' ' ∨ c = '\t' ∨ c = '\n' ∨ c = '\r' := by
  simp [Parser.isSpace, or_assoc]

theorem isOrdinary_of_isSpace (isSpace : Parser.isSpace c = true) : Comments.IsOrdinary c := by
  rcases Parser.isSpace_iff.mp isSpace with rfl | rfl | rfl | rfl <;> decide

theorem isBlank_of_isSpace (isSpace : Parser.isSpace c = true) : Text.isBlank c = true := by
  rcases Parser.isSpace_iff.mp isSpace with rfl | rfl | rfl | rfl <;> decide

theorem lineLength_eq (inLine : '\n' ∉ text) (rest : List Char) :
    Comments.lineLength (text ++ '\n' :: rest) = text.length := by
  induction text with
  | nil => rfl
  | cons c text ih =>
    rw [List.mem_cons, not_or] at inLine
    rw [List.cons_append, Comments.lineLength, if_neg (Ne.symm inLine.1),
      ih inLine.2, List.length_cons]

theorem lineLength_of_ending (inLine : '\n' ∉ text) : Comments.lineLength text = text.length := by
  induction text with
  | nil => rfl
  | cons c text ih =>
    rw [List.mem_cons, not_or] at inLine
    rw [Comments.lineLength, if_neg (Ne.symm inLine.1), ih inLine.2, List.length_cons]

/-- A block comment ends at its first closing mark. -/
theorem blockLength?_eq (unclosed : Text.containsChars ['*', '/'] text = false) (rest : List Char) :
    Comments.blockLength? (text ++ '*' :: '/' :: rest) = some (text.length + 2) := by
  induction text with
  | nil => rfl
  | cons c text ih =>
    rw [Text.containsChars, Bool.or_eq_false_iff] at unclosed
    rw [List.cons_append, Comments.blockLength?, ih unclosed.2]
    · rfl
    · rintro others rfl closed
      cases text with
      | nil => cases closed
      | cons next text =>
        rw [List.cons_append] at closed
        cases closed
        simp at unclosed

/-- A filler leaves what is left of it, and the scanner goes on behind it. -/
theorem scan_filler (filler : Filler) (rest : List Char) :
    Comments.scan true 0 (filler.text ++ rest) = filler.bare ++ Comments.scan true 0 rest := by
  cases filler with
  | blank c isSpace =>
    refine Comments.scan_ordinary (fun other member => ?_) rest
    rw [List.mem_singleton.mp member]
    exact isOrdinary_of_isSpace isSpace
  | line text inLine =>
    have isToken : Comments.token '/' (('/' :: text) ++ '\n' :: rest) =
        (false, ('/' :: text).length) := by
      rw [List.cons_append, Comments.token, lineLength_eq inLine, List.length_cons]
    have dropped := Comments.scan_token isToken
    have lineEnd : Comments.scan true 0 (['\n'] ++ rest) = ['\n'] ++ Comments.scan true 0 rest :=
      Comments.scan_ordinary (by
        intro c member
        rw [List.mem_singleton.mp member]
        exact isOrdinary_of_isSpace (by decide)) rest
    rw [List.singleton_append] at lineEnd
    have shown : Filler.text (.line text inLine) ++ rest =
        '/' :: ('/' :: text) ++ '\n' :: rest := by
      simp [Filler.text]
    rw [shown, dropped, lineEnd]
    rfl
  | block text unclosed =>
    have isToken : Comments.token '/' (('*' :: text ++ ['*', '/']) ++ rest) =
        (false, ('*' :: text ++ ['*', '/']).length) := by
      have found := blockLength?_eq unclosed rest
      simp [Comments.token, found]
    have dropped := Comments.scan_token isToken
    have shown : Filler.text (.block text unclosed) ++ rest =
        '/' :: ('*' :: text ++ ['*', '/']) ++ rest := by
      simp [Filler.text]
    rw [shown, dropped]
    rfl

theorem scan_gap (gap : Gap) (rest : List Char) :
    Comments.scan true 0 (gap.text ++ rest) = gap.bare ++ Comments.scan true 0 rest := by
  induction gap with
  | nil => rfl
  | cons filler gap ih =>
    have textCons : Gap.text (filler :: gap) = filler.text ++ Gap.text gap :=
      List.flatMap_cons
    have bareCons : Gap.bare (filler :: gap) = filler.bare ++ Gap.bare gap :=
      List.flatMap_cons
    rw [textCons, bareCons, List.append_assoc, scan_filler, ih, List.append_assoc]

theorem scan_remark (remark : Option { text : List Char // '\n' ∉ text }) :
    Comments.scan true 0 (Document.remarkText remark) = [] := by
  cases remark with
  | none => rfl
  | some text =>
    obtain ⟨text, inLine⟩ := text
    have isToken : Comments.token '/' (('/' :: text) ++ []) = (false, ('/' :: text).length) := by
      rw [List.append_nil, Comments.token, lineLength_of_ending inLine, List.length_cons]
    have dropped := Comments.scan_token isToken
    rw [List.append_nil] at dropped
    exact dropped

/-! ## Strings and numbers -/

theorem plain_of_hexDigit? {value : Nat} (known : Text.hexDigit? c = some value) :
    c ≠ '"' ∧ c ≠ '\\' := by
  have quote : Text.hexDigit? '"' = none := by decide
  have backslash : Text.hexDigit? '\\' = none := by decide
  constructor
  · rintro rfl
    rw [quote] at known
    cases known
  · rintro rfl
    rw [backslash] at known
    cases known

/-- The digits of a code unit are hexadecimal. -/
theorem digits_of_hexValue? {digits : List Char} {value : Nat}
    (known : Text.hexValue? digits = some value) :
    ∀ c ∈ digits, ∃ digit, Text.hexDigit? c = some digit := by
  unfold Text.hexValue? at known
  generalize 0 = start at known
  induction digits generalizing start with
  | nil => simp
  | cons c digits ih =>
    rw [List.foldlM_cons] at known
    cases digit : Text.hexDigit? c with
    | none =>
      rw [digit] at known
      cases known
    | some found =>
      rw [digit] at known
      intro other member
      rcases List.mem_cons.mp member with rfl | later
      · exact ⟨found, digit⟩
      · exact ih _ known other later

theorem stringLength?_plain (notQuote : c ≠ '"') (notBackslash : c ≠ '\\') (rest : List Char) :
    Comments.stringLength? (c :: rest) = (Comments.stringLength? rest).map (· + 1) := by
  rw [Comments.stringLength?.eq_def]
  split <;> simp_all

/-- A piece of a string counts with its length and does not end the string. -/
theorem stringLength?_piece (piece : Piece) (rest : List Char) :
    Comments.stringLength? (piece.text ++ rest) =
      (Comments.stringLength? rest).map (· + piece.text.length) := by
  cases piece with
  | plain c usual => exact stringLength?_plain usual.2.1 usual.2.2 rest
  | escape letter meant known => rfl
  | unit a b c d code known =>
    have each := digits_of_hexValue? known
    simp only [List.mem_cons, List.not_mem_nil, or_false, forall_eq_or_imp, forall_eq] at each
    obtain ⟨⟨_, aDigit⟩, ⟨_, bDigit⟩, ⟨_, cDigit⟩, _, dDigit⟩ := each
    have aPlain := plain_of_hexDigit? aDigit
    have bPlain := plain_of_hexDigit? bDigit
    have cPlain := plain_of_hexDigit? cDigit
    have dPlain := plain_of_hexDigit? dDigit
    change (Comments.stringLength? (a :: b :: c :: d :: rest)).map (· + 2) = _
    rw [stringLength?_plain aPlain.1 aPlain.2, stringLength?_plain bPlain.1 bPlain.2,
      stringLength?_plain cPlain.1 cPlain.2, stringLength?_plain dPlain.1 dPlain.2]
    cases Comments.stringLength? rest <;> rfl

/-- A string ends at its closing quote, whatever it means. -/
theorem stringLength?_pieces (pieces : List Piece) (rest : List Char) :
    Comments.stringLength? (pieces.flatMap Piece.text ++ '"' :: rest) =
      some ((pieces.flatMap Piece.text).length + 1) := by
  induction pieces with
  | nil => rfl
  | cons piece pieces ih =>
    rw [List.flatMap_cons, List.append_assoc, stringLength?_piece, ih,
      Option.map_some, List.length_append]
    congr 1
    omega

theorem scan_quoted (pieces : List Piece) (rest : List Char) :
    Comments.scan true 0 (Piece.quoted pieces ++ rest) =
      Piece.quoted pieces ++ Comments.scan true 0 rest := by
  have isToken : Comments.token '"' ((pieces.flatMap Piece.text ++ ['"']) ++ rest) =
      (true, (pieces.flatMap Piece.text ++ ['"']).length) := by
    have found := stringLength?_pieces pieces rest
    simp [Comments.token, found]
  exact Comments.scan_token isToken

theorem toNat_of_isDigit (isDigit : c.isDigit = true) : 48 ≤ c.toNat ∧ c.toNat ≤ 57 := by
  simpa [Char.isDigit, UInt32.le_iff_toNat_le] using isDigit

theorem isOrdinary_of_isDigit (isDigit : c.isDigit = true) : Comments.IsOrdinary c := by
  refine ⟨?_, ?_, ?_⟩ <;>
    · rintro rfl
      exact absurd isDigit (by decide)

/-- No part of a number, however long it is, starts a string or a comment or is a comma. -/
theorem isOrdinary_of_mem_parts
    (negative : Bool) (whole : Digits) (places : Option Digits) (exponent : Option Exponent) :
    ∀ c ∈ (if negative then ['-'] else []) ++ whole.chars ++ Numeral.placesText places ++
      Numeral.exponentText exponent, Comments.IsOrdinary c := by
  intro c member
  simp only [List.mem_append] at member
  rcases member with ((sign | inWhole) | inPlaces) | inExponent
  · split at sign
    · rw [List.mem_singleton.mp sign]
      decide
    · cases sign
  · exact isOrdinary_of_isDigit (whole.digits c inWhole)
  · cases places with
    | none => cases inPlaces
    | some digits =>
      rcases List.mem_cons.mp inPlaces with rfl | member
      · decide
      · exact isOrdinary_of_isDigit (digits.digits c member)
  · cases exponent with
    | none => cases inExponent
    | some power =>
      simp only [Numeral.exponentText, List.mem_append, List.mem_cons] at inExponent
      rcases inExponent with (rfl | sign) | member
      · rcases power.isLetter with letter | letter <;> rw [letter] <;> decide
      · rcases power.isSign with none | plus | minus
        · rw [none] at sign
          cases sign
        · rw [plus] at sign
          rw [List.mem_singleton.mp sign]
          decide
        · rw [minus] at sign
          rw [List.mem_singleton.mp sign]
          decide
      · exact isOrdinary_of_isDigit (power.power.digits c member)

theorem isOrdinary_of_mem_numeral (numeral : Numeral) :
    ∀ c ∈ numeral.text, Comments.IsOrdinary c :=
  isOrdinary_of_mem_parts numeral.negative numeral.whole numeral.places numeral.exponent

/-! ## Commas -/

theorem closes_of_isSpace (isSpace : Parser.isSpace c = true) (rest : List Char) :
    Comments.closes (c :: rest) = Comments.closes rest := by
  unfold Comments.closes
  rw [List.dropWhile_cons_of_pos (isBlank_of_isSpace isSpace)]

theorem closes_of_not_isBlank (notBlank : Text.isBlank c = false) (rest : List Char) :
    Comments.closes (c :: rest) = (c == '\x7d' || c == ']') := by
  unfold Comments.closes
  rw [List.dropWhile_cons_of_neg (by rw [notBlank]; simp)]

/-- A comma is seen to be the last one through white space only. -/
theorem closes_gap (gap : Gap) (rest : List Char) :
    Comments.closes (gap.text ++ rest) = (gap.isBlank && Comments.closes rest) := by
  induction gap with
  | nil => rfl
  | cons filler gap ih =>
    have textCons : Gap.text (filler :: gap) = filler.text ++ Gap.text gap :=
      List.flatMap_cons
    have blankCons : Gap.isBlank (filler :: gap) = (filler.isBlank && Gap.isBlank gap) :=
      List.all_cons
    rw [textCons, blankCons, List.append_assoc]
    cases filler with
    | blank c isSpace =>
      change Comments.closes (c :: (Gap.text gap ++ rest)) = _
      rw [closes_of_isSpace isSpace, ih]
      rfl
    | line text inLine => exact closes_of_not_isBlank (by decide) _
    | block text unclosed => exact closes_of_not_isBlank (by decide) _

/-- A character that a value or a key may start with: it is no white space and closes nothing. -/
def Starts (c : Char) : Prop := Text.isBlank c = false ∧ c ≠ ']' ∧ c ≠ '\x7d'

instance : DecidablePred Starts := fun c =>
  inferInstanceAs (Decidable (Text.isBlank c = false ∧ c ≠ ']' ∧ c ≠ '\x7d'))

theorem starts_of_isDigit (isDigit : c.isDigit = true) : Starts c := by
  obtain ⟨least, most⟩ := toNat_of_isDigit isDigit
  refine ⟨?_, ?_, ?_⟩
  · simp only [Text.isBlank, Bool.or_eq_false_iff, Bool.and_eq_false_iff, decide_eq_false_iff_not,
      beq_eq_false_iff_ne]
    omega
  · rintro rfl
    exact absurd isDigit (by decide)
  · rintro rfl
    exact absurd isDigit (by decide)

/-- A number starts with its sign or with a digit. -/
theorem starts_of_parts (negative : Bool) (whole : Digits) (others : List Char) :
    ∃ c rest, (if negative then ['-'] else []) ++ whole.chars ++ others = c :: rest ∧ Starts c := by
  obtain ⟨first, more, wholeCons⟩ := List.exists_cons_of_ne_nil whole.nonempty
  have firstDigit := whole.digits first (by rw [wholeCons]; exact List.mem_cons_self)
  rw [wholeCons]
  cases negative with
  | true => exact ⟨'-', _, rfl, by decide⟩
  | false => exact ⟨first, _, rfl, starts_of_isDigit firstDigit⟩

theorem Numeral.starts (numeral : Numeral) :
    ∃ c rest, numeral.text = c :: rest ∧ Starts c := by
  rw [Numeral.text, List.append_assoc]
  exact starts_of_parts numeral.negative numeral.whole _

theorem Written.starts (showing : Showing) (item : Written) :
    ∃ c rest, item.shown showing = c :: rest ∧ Starts c := by
  unfold Written.shown
  split
  case h_4 numeral => exact numeral.starts
  all_goals exact ⟨_, _, rfl, by decide⟩

theorem Items.starts (showing : Showing) (items : Items) :
    ∃ c rest, items.shown showing = c :: rest ∧ Starts c := by
  cases items <;>
    · unfold Items.shown
      obtain ⟨c, rest, shown, starts⟩ := Written.starts showing ‹Written›
      rw [shown]
      exact ⟨c, _, rfl, starts⟩

theorem Entries.starts (showing : Showing) (entries : Entries) :
    ∃ c rest, entries.shown showing = c :: rest ∧ Starts c := by
  cases entries <;> exact ⟨'"', _, rfl, by decide⟩

/-- Nothing closes where a value or a key starts. -/
theorem not_closes_of_starts (starts : ∃ c rest, text = c :: rest ∧ Starts c) (rest : List Char) :
    Comments.closes (text ++ rest) = false := by
  obtain ⟨c, more, rfl, notBlank, notBracket, notBrace⟩ := starts
  rw [List.cons_append, closes_of_not_isBlank notBlank]
  simp [notBracket, notBrace]

theorem scan_ordinary_char (ordinary : Comments.IsOrdinary c) (rest : List Char) :
    Comments.scan true 0 (c :: rest) = c :: Comments.scan true 0 rest := by
  have each : ∀ other ∈ [c], Comments.IsOrdinary other := by simpa using ordinary
  exact Comments.scan_ordinary each rest

theorem scan_comma (rest : List Char) :
    Comments.scan true 0 (',' :: rest) =
      (if Comments.closes rest then [] else [',']) ++ Comments.scan true 0 rest := by
  have isToken : Comments.token ',' ([] ++ rest) =
      (!Comments.closes rest, ([] : List Char).length) := rfl
  have scanned := Comments.scan_token isToken
  rw [List.singleton_append] at scanned
  rw [scanned]
  cases Comments.closes rest <;> rfl

/-- A comma between two elements is kept. -/
theorem scan_comma_between (gap : Gap) (starts : ∃ c rest, text = c :: rest ∧ Starts c)
    (rest : List Char) :
    Comments.scan true 0 (',' :: (gap.text ++ (text ++ rest))) =
      ',' :: (gap.bare ++ Comments.scan true 0 (text ++ rest)) := by
  rw [scan_comma, closes_gap, not_closes_of_starts starts, Bool.and_false, scan_gap]
  rfl

/-- A comma after the last element is dropped if only white space parts it from the bracket. -/
theorem scan_ending (comma : Option Gap) {rest : List Char} (closed : Comments.closes rest = true) :
    Comments.scan true 0 (Showing.full.ending comma ++ rest) =
      Showing.bare.ending comma ++ Comments.scan true 0 rest := by
  cases comma with
  | none => rfl
  | some gap =>
    change Comments.scan true 0 (',' :: (gap.text ++ rest)) =
      (if gap.isBlank then gap.bare else ',' :: gap.bare) ++ _
    rw [scan_comma, closes_gap, closed, Bool.and_true, scan_gap]
    cases gap.isBlank <;> rfl

theorem scan_label (label : Label) (rest : List Char) :
    Comments.scan true 0 (label.shown .full ++ rest) =
      label.shown .bare ++ Comments.scan true 0 rest := by
  have colon : Comments.IsOrdinary ':' := by decide
  simp only [Label.shown, List.append_assoc, List.cons_append]
  change Comments.scan true 0
    (Piece.quoted label.key ++ (label.before.text ++ ':' :: (label.after.text ++ rest))) =
      Piece.quoted label.key ++ (label.before.bare ++ ':' :: (label.after.bare ++ _))
  rw [scan_quoted, scan_gap, scan_ordinary_char colon, scan_gap]

/-! ## Values -/

mutual

/-- A value leaves its text without comments, and the scanner goes on behind it. -/
theorem Written.scan_shown (item : Written) (rest : List Char) :
    Comments.scan true 0 (item.shown .full ++ rest) =
      item.shown .bare ++ Comments.scan true 0 rest := by
  have openBracket : Comments.IsOrdinary '[' := by decide
  have closeBracket : Comments.IsOrdinary ']' := by decide
  have openBrace : Comments.IsOrdinary '\x7b' := by decide
  have closeBrace : Comments.IsOrdinary '\x7d' := by decide
  cases item with
  | null =>
    have ordinary : ∀ c ∈ ['n', 'u', 'l', 'l'], Comments.IsOrdinary c := by
      simp [Comments.IsOrdinary]
    exact Comments.scan_ordinary ordinary rest
  | truth value =>
    cases value with
    | true =>
      have ordinary : ∀ c ∈ ['t', 'r', 'u', 'e'], Comments.IsOrdinary c := by
        simp [Comments.IsOrdinary]
      exact Comments.scan_ordinary ordinary rest
    | false =>
      have ordinary : ∀ c ∈ ['f', 'a', 'l', 's', 'e'], Comments.IsOrdinary c := by
        simp [Comments.IsOrdinary]
      exact Comments.scan_ordinary ordinary rest
  | number numeral => exact Comments.scan_ordinary (isOrdinary_of_mem_numeral numeral) rest
  | string pieces => exact scan_quoted pieces rest
  | emptyArray gap =>
    simp only [Written.shown, List.cons_append, List.append_assoc, List.nil_append]
    change Comments.scan true 0 ('[' :: (gap.text ++ ']' :: rest)) = '[' :: (gap.bare ++ _)
    rw [scan_ordinary_char openBracket, scan_gap, scan_ordinary_char closeBracket]
  | array gap items =>
    have closed : Comments.closes (']' :: rest) = true := closes_of_not_isBlank (by decide) rest
    simp only [Written.shown, List.cons_append, List.append_assoc, List.nil_append]
    change Comments.scan true 0 ('[' :: (gap.text ++ (items.shown .full ++ ']' :: rest))) =
      '[' :: (gap.bare ++ _)
    rw [scan_ordinary_char openBracket, scan_gap, Items.scan_shown items closed,
      scan_ordinary_char closeBracket]
  | emptyObject gap =>
    simp only [Written.shown, List.cons_append, List.append_assoc, List.nil_append]
    change Comments.scan true 0 ('\x7b' :: (gap.text ++ '\x7d' :: rest)) = '\x7b' :: (gap.bare ++ _)
    rw [scan_ordinary_char openBrace, scan_gap, scan_ordinary_char closeBrace]
  | object gap entries =>
    have closed : Comments.closes ('\x7d' :: rest) = true :=
      closes_of_not_isBlank (by decide) rest
    simp only [Written.shown, List.cons_append, List.append_assoc, List.nil_append]
    change Comments.scan true 0
      ('\x7b' :: (gap.text ++ (entries.shown .full ++ '\x7d' :: rest))) = '\x7b' :: (gap.bare ++ _)
    rw [scan_ordinary_char openBrace, scan_gap, Entries.scan_shown entries closed,
      scan_ordinary_char closeBrace]

/-- Stripping leaves the items as they are written without comments. -/
theorem Items.scan_shown (items : Items) {rest : List Char} (closed : Comments.closes rest = true) :
    Comments.scan true 0 (items.shown .full ++ rest) =
      items.shown .bare ++ Comments.scan true 0 rest := by
  cases items with
  | last item gap comma =>
    simp only [Items.shown, List.append_assoc]
    change Comments.scan true 0 (item.shown .full ++ (gap.text ++ _)) =
      item.shown .bare ++ (gap.bare ++ _)
    rw [Written.scan_shown item, scan_gap, scan_ending comma closed]
  | more item gap after others =>
    simp only [Items.shown, List.append_assoc, List.cons_append]
    change Comments.scan true 0 (item.shown .full ++ (gap.text ++ ',' :: (after.text ++ _))) =
      item.shown .bare ++ (gap.bare ++ ',' :: (after.bare ++ _))
    rw [Written.scan_shown item, scan_gap, scan_comma_between after (others.starts .full),
      Items.scan_shown others closed]

/-- Stripping leaves the entries as they are written without comments. -/
theorem Entries.scan_shown
    (entries : Entries) {rest : List Char} (closed : Comments.closes rest = true) :
    Comments.scan true 0 (entries.shown .full ++ rest) =
      entries.shown .bare ++ Comments.scan true 0 rest := by
  cases entries with
  | last label item gap comma =>
    simp only [Entries.shown, List.append_assoc]
    change Comments.scan true 0 (label.shown .full ++ (item.shown .full ++ (gap.text ++ _))) =
      label.shown .bare ++ (item.shown .bare ++ (gap.bare ++ _))
    rw [scan_label, Written.scan_shown item, scan_gap, scan_ending comma closed]
  | more label item gap after others =>
    simp only [Entries.shown, List.append_assoc, List.cons_append]
    change Comments.scan true 0
      (label.shown .full ++ (item.shown .full ++ (gap.text ++ ',' :: (after.text ++ _)))) =
        label.shown .bare ++ (item.shown .bare ++ (gap.bare ++ ',' :: (after.bare ++ _)))
    rw [scan_label, Written.scan_shown item, scan_gap,
      scan_comma_between after (others.starts .full), Entries.scan_shown others closed]

end

/-- The text of a document without its comments. -/
theorem stripComments_text (document : Document) :
    stripComments document.text = document.bare := by
  simp only [stripComments, Document.text, Document.bare, List.append_assoc]
  rw [scan_gap, Written.scan_shown, scan_gap, scan_remark, List.append_nil]

end Json
end ModuleAtlas
