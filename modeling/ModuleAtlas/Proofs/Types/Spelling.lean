import ModuleAtlas.Proofs.Listwise
import ModuleAtlas.Proofs.Task.Steady
import ModuleAtlas.Shape.LiteralText
import ModuleAtlas.Types.Structure

/-!
# Two spellings of texts

Two editions of the same files may spell the texts of types in two ways, as when type parameters are
renamed.  A spelling says which texts stand for each other.  What is asked of it is what reading and
showing types does with texts: they are compared, put together, cut at dots, and have parameters
replaced.  Texts that the analysis puts in itself are spelled in one way.
-/

namespace ModuleAtlas

/-- The last character of a text belongs to no word. -/
def Text.EndsApart (text : String) : Prop := text.toList.getLast?.any Text.isWord = false

/-- The first character of a text belongs to no word. -/
def Text.StartsApart (text : String) : Prop := text.toList.head?.any Text.isWord = false

instance (text : String) : Decidable (Text.EndsApart text) := inferInstanceAs (Decidable (_ = _))

instance (text : String) : Decidable (Text.StartsApart text) := inferInstanceAs (Decidable (_ = _))

/-- The texts that are put in by the analysis itself. -/
def ownTexts : List String :=
  Types.primitiveNames ++ Types.builtinNames ++ Types.arrayNames ++
    ["", "[]", "(", ")", "[", "]", ", ", " | ", " & ", ") => ", "...", "?", ": ", "Function",
      "args", "anonymous", "default", "<", ">", "Generator<", "Promise<", "\x7b\x7d", "\x7b ",
      " \x7d", ";", " ", "\"", ".", "true", "false"]

/-- A text of the analysis that joins nothing before and behind it. -/
structure IsMark (mark : String) : Prop where
  own : mark ∈ ownTexts
  nonempty : mark.toList ≠ []
  ends : Text.EndsApart mark
  starts : Text.StartsApart mark

instance (mark : String) : Decidable (IsMark mark) :=
  decidable_of_iff (mark ∈ ownTexts ∧ mark.toList ≠ [] ∧ Text.EndsApart mark ∧
      Text.StartsApart mark)
    ⟨fun ⟨own, nonempty, ends, starts⟩ => ⟨own, nonempty, ends, starts⟩,
      fun isMark => ⟨isMark.own, isMark.nonempty, isMark.ends, isMark.starts⟩⟩

theorem IsMark.endsApart_append {mark : String} (isMark : IsMark mark) (text : String) :
    Text.EndsApart (text ++ mark) := by
  unfold Text.EndsApart
  rw [String.toList_append, List.getLast?_append_of_ne_nil _ isMark.nonempty]
  exact isMark.ends

/-- Which texts of two editions stand for each other, and which names of type parameters. -/
structure Spelling where
  spelled : String → String → Prop
  nameable : String → String → Prop
  unique : ∀ {text other more another}, spelled text other → spelled more another →
    (text = more ↔ other = another)
  own : ∀ {text}, text ∈ ownTexts → spelled text text
  append : ∀ {text other more another}, spelled text other → spelled more another →
    Text.EndsApart text ∨ Text.StartsApart more → spelled (text ++ more) (other ++ another)
  collapse : ∀ {text other}, spelled text other → spelled (Text.collapse text) (Text.collapse other)
  lastName : ∀ {text other}, spelled text other →
    spelled (Types.lastName text) (Types.lastName other)
  isLiteralText : ∀ {text other}, spelled text other →
    Shape.isLiteralText text = Shape.isLiteralText other
  replace : ∀ {name otherName value otherValue code otherCode}, nameable name otherName →
    spelled value otherValue → spelled code otherCode →
    Outcomes spelled (Regex.Expression.replace ⟨Types.wholeWord name, 0, []⟩ value code)
      (Regex.Expression.replace ⟨Types.wholeWord otherName, 0, []⟩ otherValue otherCode)
  spelled_of_nameable : ∀ {name other}, nameable name other → spelled name other
  cutLast?_of_nameable : ∀ {name other}, nameable name other → name ≠ other →
    Text.cutLast? '.' name.toList = none ∧ Text.cutLast? '.' other.toList = none

namespace Spelling

variable (spelling : Spelling)

/-- All texts are spelled in one way. -/
def same : Spelling where
  spelled := Eq
  nameable := Eq
  unique := by
    rintro _ _ _ _ rfl rfl
    rfl
  own _ := rfl
  append := by
    rintro _ _ _ _ rfl rfl _
    rfl
  collapse := congrArg Text.collapse
  lastName := congrArg Types.lastName
  isLiteralText := congrArg Shape.isLiteralText
  replace := by
    rintro _ _ _ _ _ _ rfl rfl rfl
    exact outcomes_eq rfl
  spelled_of_nameable := id
  cutLast?_of_nameable equal different := absurd equal different

/-- A text that is spelled in one way. -/
def Fixed (text : String) : Prop := spelling.spelled text text

/-- No text is spelled in two ways, and every text may be the name of a type parameter. -/
structure IsSame : Prop where
  eq_of_spelled : ∀ {text other}, spelling.spelled text other → text = other
  nameable : ∀ text, spelling.nameable text text

theorem isSame_same : same.IsSame := ⟨id, fun _ => rfl⟩

/-- Names of types stand for each other: type parameters, or a name that is spelled in one way. -/
def Names (name other : String) : Prop :=
  spelling.nameable name other ∨ name = other ∧ spelling.Fixed name

variable {spelling} {text other more another name otherName : String}

/-! ## Comparing texts -/

theorem own_iff (spelled : spelling.spelled text other) {word : String} (isOwn : word ∈ ownTexts) :
    text = word ↔ other = word :=
  spelling.unique spelled (spelling.own isOwn)

theorem isEmpty_eq (spelled : spelling.spelled text other) : text.isEmpty = other.isEmpty := by
  rw [Bool.eq_iff_iff, String.isEmpty_iff, String.isEmpty_iff]
  exact own_iff spelled (by decide)

/-- A list of texts of the analysis has a text exactly when it has the other. -/
theorem contains_own (spelled : spelling.spelled text other) {words : List String}
    (areOwn : words ⊆ ownTexts) :
    words.contains text = words.contains other := by
  rw [List.contains_eq_any_beq, List.contains_eq_any_beq, Bool.eq_iff_iff, List.any_eq_true,
    List.any_eq_true]
  refine exists_congr fun word => and_congr_right fun member => ?_
  rw [beq_iff_eq, beq_iff_eq]
  exact own_iff spelled (areOwn member)

theorem contains_eq {texts others : List String}
    (related : Listwise spelling.spelled texts others) (spelled : spelling.spelled text other) :
    texts.contains text = others.contains other := by
  rw [List.contains_eq_any_beq, List.contains_eq_any_beq]
  refine related.any_eq fun known otherKnown knownSpelled => ?_
  rw [Bool.eq_iff_iff, beq_iff_eq, beq_iff_eq]
  exact spelling.unique spelled knownSpelled

/-! ## Putting texts together -/

theorem enclosed (spelled : spelling.spelled text other) {opening closing : String}
    (isOwn : opening ∈ ownTexts ∧ closing ∈ ownTexts)
    (apart : Text.EndsApart opening ∧ Text.StartsApart closing) :
    spelling.spelled (opening ++ text ++ closing) (opening ++ other ++ closing) :=
  spelling.append (spelling.append (spelling.own isOwn.1) spelled (.inl apart.1))
    (spelling.own isOwn.2) (.inr apart.2)

/-- Two texts with a text of the analysis between them. -/
theorem parted (spelled : spelling.spelled text other) (moreSpelled : spelling.spelled more another)
    {mark : String} (isMark : IsMark mark) :
    spelling.spelled (text ++ mark ++ more) (other ++ mark ++ another) :=
  spelling.append (spelling.append spelled (spelling.own isMark.own) (.inr isMark.starts))
    moreSpelled (.inl (isMark.endsApart_append text))

/-- Texts that are joined by a mark are spelled as their parts are. -/
theorem join {texts others : List String} (related : Listwise spelling.spelled texts others)
    {mark : String} (isMark : IsMark mark) :
    spelling.spelled (Text.join mark texts) (Text.join mark others) := by
  unfold Text.join
  induction related with
  | nil => exact (spelling.own (by decide) : spelling.spelled "" "")
  | cons head tail ih =>
    cases tail with
    | nil =>
      rw [String.intercalate_singleton, String.intercalate_singleton]
      exact head
    | cons next rest =>
      rw [String.intercalate_cons_cons, String.intercalate_cons_cons]
      exact parted head ih isMark

/-! ## Names -/

theorem Names.spelled (names : spelling.Names name otherName) :
    spelling.spelled name otherName := by
  rcases names with renamed | ⟨rfl, fixed⟩
  · exact spelling.spelled_of_nameable renamed
  · exact fixed

theorem Fixed.names (fixed : spelling.Fixed name) : spelling.Names name name := .inr ⟨rfl, fixed⟩

/-- Names with a dot are spelled in one way. -/
theorem Names.cut_cases (names : spelling.Names name otherName) :
    (∃ parts, Text.cutLast? '.' name.toList = some parts ∧ name = otherName) ∨
      Text.cutLast? '.' name.toList = none ∧ Text.cutLast? '.' otherName.toList = none := by
  by_cases same : name = otherName
  · subst same
    cases cut : Text.cutLast? '.' name.toList with
    | none => exact .inr ⟨rfl, rfl⟩
    | some parts => exact .inl ⟨parts, rfl, rfl⟩
  · rcases names with renamed | ⟨equal, _⟩
    · exact .inr (spelling.cutLast?_of_nameable renamed same)
    · exact absurd equal same

end Spelling

/-! ## Values under names -/

/-- Related values under keys that stand for each other. -/
inductive Assigned {τ υ : Type} (keys : String → String → Prop) (relation : τ → υ → Prop) :
    String × τ → String × υ → Prop where
  | mk {name other : String} {value : τ} {answer : υ}
      (related : relation value answer) (names : keys name other) :
      Assigned keys relation (name, value) (other, answer)

namespace Listwise

variable {τ υ : Type} {keys : String → String → Prop} {relation : τ → υ → Prop}
  {values : List (String × τ)} {others : List (String × υ)} {name other : String} {value : τ}
  {answer : υ}

variable (related : Listwise (Assigned keys relation) values others)

include related

theorem find?_assigned
    (unique : ∀ known another, keys known another → (known = name ↔ another = other)) :
    Option.Rel relation (Keyed.find? name values) (Keyed.find? other others) := by
  unfold Keyed.find?
  induction related with
  | nil => exact .none
  | cons head _ ih =>
    obtain @⟨known, another, _, _, related, names⟩ := head
    have together := unique known another names
    rw [List.lookup_cons, List.lookup_cons]
    by_cases same : name = known
    · rw [beq_iff_eq.mpr same, beq_iff_eq.mpr (together.mp same.symm).symm]
      exact .some related
    · rw [beq_false_of_ne same, beq_false_of_ne fun equal => same (together.mpr equal.symm).symm]
      exact ih

theorem has_assigned
    (unique : ∀ known another, keys known another → (known = name ↔ another = other)) :
    Keyed.has name values = Keyed.has other others :=
  optionIsSome_eq (related.find?_assigned unique)

theorem put_assigned (valueRelated : relation value answer) (names : keys name other)
    (unique : ∀ known another, keys known another → (known = name ↔ another = other)) :
    Listwise (Assigned keys relation) (Keyed.put name value values)
      (Keyed.put other answer others) := by
  induction related with
  | nil => exact .cons ⟨valueRelated, names⟩ .nil
  | cons head tail ih =>
    obtain @⟨known, another, _, _, related, headNames⟩ := head
    have together := unique known another headNames
    unfold Keyed.put
    dsimp only
    by_cases same : known = name
    · rw [if_pos (beq_iff_eq.mpr same), if_pos (beq_iff_eq.mpr (together.mp same))]
      exact .cons ⟨valueRelated, headNames⟩ tail
    · rw [if_neg (mt beq_iff_eq.mp same), if_neg (mt beq_iff_eq.mp (mt together.mpr same))]
      exact .cons ⟨related, headNames⟩ ih

end Listwise

/-- Names of type parameters are told apart in both spellings. -/
theorem Spelling.Names.unique {spelling : Spelling} {name other : String}
    (names : spelling.Names name other) (known another : String)
    (nameable : spelling.nameable known another) :
    known = name ↔ another = other :=
  spelling.unique (spelling.spelled_of_nameable nameable) names.spelled

end ModuleAtlas
