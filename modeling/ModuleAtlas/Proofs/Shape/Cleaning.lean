import Mathlib.Algebra.Order.BigOperators.Group.List
import ModuleAtlas.Proofs.Regex.Replacing
import ModuleAtlas.Proofs.Text.Balance
import ModuleAtlas.Proofs.Listwise
import ModuleAtlas.Shape.Cleaner

/-!
# Balanced type texts

The wrapper rules that hold by default are all of one shape: a name with its arguments up to the
first closing angle bracket, which some rules take for a wrapper only if the arguments hold a mark.
So a wrapper is cut whole unless its arguments hold a generic type or an arrow.  What is cut off
then leaves a closing bracket behind, and nothing that comes later makes up for it.
-/

namespace ModuleAtlas

namespace Text

/-! ## Cuts in balanced texts -/

section

variable {cuts : List (List Char × List Char)} {rest word : List Char} {afterEquals : Bool}
  {pending next : List Char}

/-- A word that can be put anywhere: it has no brackets and does not end with an equals sign. -/
structure IsPlainWord (word : List Char) : Prop where
  nonempty : word ≠ []
  plain : ∀ c ∈ word, IsPlainChar c
  ending : word.getLast? ≠ some '='

theorem IsPlainWord.endsEqual (isWord : IsPlainWord word) (afterEquals : Bool) :
    Text.endsEqual afterEquals word = false := by
  have ending := isWord.ending
  rw [List.getLast?_eq_some_getLast isWord.nonempty] at ending
  rw [Text.endsEqual, List.getLast?_eq_some_getLast isWord.nonempty]
  simpa using ending

/-- Where balanced lists of arguments are replaced, the same brackets are to come as before. -/
theorem scan_of_whole (isWord : IsPlainWord word) (wrapped : ∀ cut ∈ cuts, IsWrapped cut.2)
    (whole : ∀ cut ∈ cuts, IsBalanced cut.2) (afterEquals : Bool) (pending : List Char) :
    scan afterEquals pending (cuts.flatMap (fun cut => cut.1 ++ word) ++ rest) =
      scan afterEquals pending (cuts.flatMap (fun cut => cut.1 ++ cut.2) ++ rest) := by
  induction cuts generalizing afterEquals pending with
  | nil => rfl
  | cons cut cuts ih =>
    obtain ⟨cutWrapped, othersWrapped⟩ := List.forall_mem_cons.mp wrapped
    obtain ⟨cutWhole, othersWhole⟩ := List.forall_mem_cons.mp whole
    simp only [List.flatMap_cons, List.append_assoc]
    rw [scan_append, scan_append]
    refine congrArg _ (funext fun open_ => ?_)
    rw [scan_append, scan_append, scan_of_plain isWord.plain, scan_of_head cutWrapped.head,
      cutWhole.scan_eq, Option.bind_some, Option.bind_some, isWord.endsEqual,
      cutWrapped.endsEqual]
    exact ih othersWrapped othersWhole _ _

/-- What is replaced takes the angle brackets with it that it opens and does not close. -/
theorem surplus_of_cuts
    (isWord : IsPlainWord word) (wrapped : ∀ cut ∈ cuts, IsWrapped cut.2) (afterEquals : Bool) :
    surplus afterEquals (cuts.flatMap (fun cut => cut.1 ++ cut.2) ++ rest) =
      surplus afterEquals (cuts.flatMap (fun cut => cut.1 ++ word) ++ rest) +
        (cuts.map fun cut => surplus false cut.2).sum := by
  induction cuts generalizing afterEquals with
  | nil => simp
  | cons cut cuts ih =>
    obtain ⟨cutWrapped, othersWrapped⟩ := List.forall_mem_cons.mp wrapped
    simp only [List.flatMap_cons, List.append_assoc, List.map_cons, List.sum_cons]
    rw [surplus_append, surplus_append _ cut.1, surplus_append _ cut.2, surplus_append _ word,
      surplus_of_plain isWord.plain, surplus_of_head cutWrapped.head, isWord.endsEqual,
      cutWrapped.endsEqual, ih othersWrapped]
    omega

/-- Where brackets are closed in order, they are in each part. -/
theorem exists_scan_of_mem
    (known : scan afterEquals pending (cuts.flatMap (fun cut => cut.1 ++ cut.2) ++ rest) =
      some next) :
    ∀ cut ∈ cuts, ∃ equals before behind, scan equals before cut.2 = some behind := by
  induction cuts generalizing afterEquals pending with
  | nil => exact nofun
  | cons cut cuts ih =>
    simp only [List.flatMap_cons, List.append_assoc] at known
    rw [scan_append] at known
    obtain ⟨before, -, known⟩ := Option.bind_eq_some_iff.mp known
    rw [scan_append] at known
    obtain ⟨behind, here, known⟩ := Option.bind_eq_some_iff.mp known
    exact List.forall_mem_cons.mpr ⟨⟨_, before, behind, here⟩, ih known⟩

/-! ## Cuts that leave nothing -/

/-- Behind each cut something goes on before the next one, and it is no angle bracket. -/
inductive AreApart (rest : List Char) : List (List Char × List Char) → Prop where
  | nil : AreApart rest []
  | single {cut : List Char × List Char} (goesOn : rest.head? ≠ some '>') : AreApart rest [cut]
  | cons {cut next : List Char × List Char} {cuts : List (List Char × List Char)}
      (nonempty : next.1 ≠ []) (goesOn : next.1.head? ≠ some '>')
      (tail : AreApart rest (next :: cuts)) : AreApart rest (cut :: next :: cuts)

theorem AreApart.of_cons {cut : List Char × List Char} (apart : AreApart rest (cut :: cuts)) :
    AreApart rest cuts ∧ (cuts.flatMap (·.1) ++ rest).head? ≠ some '>' := by
  cases apart with
  | single goesOn => exact ⟨.nil, goesOn⟩
  | cons nonempty goesOn tail =>
    refine ⟨tail, ?_⟩
    rwa [List.flatMap_cons, List.append_assoc, List.head?_append_of_ne_nil _ nonempty]

/-- Where balanced parts are cut out, the same brackets are to come as before. -/
theorem scan_of_apart
    (parts : ∀ cut ∈ cuts, cut.2.head? ≠ some '>' ∧ ∀ equals, endsEqual equals cut.2 = false)
    (whole : ∀ cut ∈ cuts, IsBalanced cut.2) (apart : AreApart rest cuts)
    (afterEquals : Bool) (pending : List Char) :
    scan afterEquals pending (cuts.flatMap (·.1) ++ rest) =
      scan afterEquals pending (cuts.flatMap (fun cut => cut.1 ++ cut.2) ++ rest) := by
  induction cuts generalizing afterEquals pending with
  | nil => rfl
  | cons cut cuts ih =>
    obtain ⟨⟨start, ending⟩, otherParts⟩ := List.forall_mem_cons.mp parts
    obtain ⟨cutWhole, othersWhole⟩ := List.forall_mem_cons.mp whole
    obtain ⟨othersApart, noArrow⟩ := apart.of_cons
    simp only [List.flatMap_cons, List.append_assoc]
    rw [scan_append, scan_append]
    refine congrArg _ (funext fun open_ => ?_)
    rw [scan_of_head noArrow, scan_append _ _ cut.2, scan_of_head start, cutWhole.scan_eq,
      Option.bind_some, ending]
    exact ih otherParts othersWhole othersApart _ _

end

end Text

namespace Shape

open Regex (CharSet Expression Stretch Pattern Spells guardedBy spelled)
open Text (IsBalanced IsPlainChar IsWrapped surplus)

/-! ## Module qualifiers -/

/-- What a module qualifier is made of. -/
def qualifierStretches : List Stretch :=
  [.fixed "import(\"".toList, .run ⟨true, [.range '"' '"']⟩ 1, .fixed "\").".toList]

theorem moduleQualifier_eq : moduleQualifier = guardedBy none (spelled qualifierStretches) := by
  decide +kernel

/-- The paths of the module qualifiers in a text are balanced, and behind each qualifier there
stands something, a name as a rule, that is no angle bracket. -/
structure QualifiesNames (text : String) : Prop where
  whole : ∀ cut ∈ moduleQualifier.cuts text, IsBalanced cut.2
  apart : Text.AreApart (moduleQualifier.rest text) (moduleQualifier.cuts text)

theorem qualifier_ends {piece : List Char} (spells : Spells qualifierStretches piece) :
    piece.head? ≠ some '>' ∧ ∀ equals, Text.endsEqual equals piece = false := by
  obtain ⟨text, rfl⟩ : ∃ path, piece = "import(\"".toList ++ (path ++ "\").".toList) := by
    cases spells with
    | fixed _ tail =>
      cases tail with
      | run path each enough tail =>
        cases tail with
        | fixed _ tail =>
          cases tail
          exact ⟨path, by rw [List.append_nil]⟩
  have last : "\").".toList.getLast? = some '.' := by decide
  refine ⟨by simp, fun equals => ?_⟩
  rw [Text.endsEqual_append, Text.endsEqual_append, Text.endsEqual, last]
  rfl

/-- Module qualifiers of names can be taken away without harm to the brackets. -/
theorem isBalanced_withoutQualifiers
    {text : String} (balanced : IsBalanced text.toList) (qualifies : QualifiesNames text) :
    IsBalanced (moduleQualifier.replaceBy "" text).toList := by
  have pieces := Regex.spells_of_mem_cuts none qualifierStretches text
  have whole := Regex.toList_eq_cuts none qualifierStretches text
  rw [← moduleQualifier_eq] at pieces whole
  unfold IsBalanced at balanced ⊢
  rw [Regex.toList_replaceBy_empty,
    Text.scan_of_apart (fun cut member => qualifier_ends (pieces cut member)) qualifies.whole
      qualifies.apart, ← whole]
  exact balanced

/-! ## Wrappers -/

/-- A character that is no closing angle bracket. -/
def notClosing : CharSet := ⟨true, [.range '>' '>']⟩

theorem notClosing_contains {c : Char} (inside : notClosing.contains c = true) : c ≠ '>' := by
  rintro rfl
  exact absurd inside (by decide)

/-- A generic type that is shown by a name alone: where its arguments hold a mark, if it has one,
and where no letter stands in front of it, if it is guarded. -/
structure Wrapper where
  name : String
  mark : Option String
  guarded : Bool
  shown : String

namespace Wrapper

/-- What a wrapper is made of in a text. -/
def stretches (wrapper : Wrapper) : List Stretch :=
  match wrapper.mark with
  | none => [.fixed (wrapper.name.toList ++ ['<']), .run notClosing 1, .fixed ['>']]
  | some mark =>
    [.fixed (wrapper.name.toList ++ ['<']), .run notClosing 0, .fixed mark.toList,
      .run notClosing 0, .fixed ['>']]

/-- What must not stand in front of a wrapper. -/
def guard (wrapper : Wrapper) : Option (Nat × Pattern) :=
  if wrapper.guarded then some (1, .one ⟨false, [.range 'A' 'Z', .range 'a' 'z']⟩) else none

/-- The pattern of a wrapper. -/
def pattern (wrapper : Wrapper) : Pattern := guardedBy wrapper.guard (spelled wrapper.stretches)

/-- The rule for a wrapper. -/
def rule (wrapper : Wrapper) : Expression × String := (⟨wrapper.pattern, 0, []⟩, wrapper.shown)

/-- A wrapper whose texts have no brackets, and no backslash where they are shown. -/
structure IsPlain (wrapper : Wrapper) : Prop where
  name : Text.IsPlainWord wrapper.name.toList
  mark : ∀ mark ∈ wrapper.mark, '>' ∉ mark.toList
  shown : Text.IsPlainWord wrapper.shown.toList
  read : Regex.Template.parts wrapper.rule.1 (wrapper.shown.toList.length + 1)
      wrapper.shown.toList =
    .ok (wrapper.shown.toList.map fun c => .fixed [c])

/-- What the pattern of a wrapper matches is a name with a list of arguments. -/
theorem isWrapped_of_spells {wrapper : Wrapper} (isPlain : wrapper.IsPlain) {piece : List Char}
    (spells : Spells wrapper.stretches piece) :
    IsWrapped piece := by
  have free : ∀ {text : List Char}, (∀ c ∈ text, notClosing.contains c = true) → '>' ∉ text :=
    fun each member => notClosing_contains (each _ member) rfl
  obtain ⟨inner, closed, rfl⟩ : ∃ inner, '>' ∉ inner ∧
      piece = wrapper.name.toList ++ '<' :: (inner ++ ['>']) := by
    unfold stretches at spells
    split at spells
    · cases spells with
      | fixed _ tail =>
        cases tail with
        | run inner each enough tail =>
          cases tail with
          | fixed _ tail =>
            cases tail
            exact ⟨inner, free each, by simp⟩
    · rename_i mark known
      cases spells with
      | fixed _ tail =>
        cases tail with
        | run before beforeEach _ tail =>
          cases tail with
          | fixed _ tail =>
            cases tail with
            | run behind behindEach _ tail =>
              cases tail with
              | fixed _ tail =>
                cases tail
                refine ⟨before ++ (mark.toList ++ behind), ?_, by simp⟩
                simp only [List.mem_append, not_or]
                exact ⟨free beforeEach, isPlain.mark mark known, free behindEach⟩
  exact ⟨_, inner, rfl, isPlain.name.nonempty, isPlain.name.plain, closed⟩

section

variable {wrapper : Wrapper} (isPlain : wrapper.IsPlain) (text : String)

include isPlain

/-- What a rule puts in the place of the wrappers in a text. -/
theorem replace_rule :
    wrapper.rule.1.replace wrapper.rule.2 text =
      .ok (String.ofList ((wrapper.pattern.cuts text).flatMap
        (fun cut => cut.1 ++ wrapper.shown.toList) ++ wrapper.pattern.rest text)) :=
  Regex.replace_fixed isPlain.read text

theorem isWrapped_of_mem_cuts : ∀ cut ∈ wrapper.pattern.cuts text, IsWrapped cut.2 :=
  fun cut member => isWrapped_of_spells isPlain
    (Regex.spells_of_mem_cuts wrapper.guard wrapper.stretches text cut member)

/-- A rule takes at least as many opening angle brackets away as closing ones, and so as many of
both only if each wrapper opens as many as it closes. -/
theorem surplus_replaced
    {replaced : String} (ran : wrapper.rule.1.replace wrapper.rule.2 text = .ok replaced) :
    surplus false replaced.toList ≤ surplus false text.toList ∧
      (surplus false replaced.toList = surplus false text.toList →
        ∀ cut ∈ wrapper.pattern.cuts text, surplus false cut.2 = 0) := by
  have wrapped := isWrapped_of_mem_cuts isPlain text
  rw [replace_rule isPlain text] at ran
  obtain rfl := Except.ok.inj ran
  have before : surplus false text.toList = surplus false
      ((wrapper.pattern.cuts text).flatMap (fun cut => cut.1 ++ wrapper.shown.toList)
        ++ wrapper.pattern.rest text) +
      ((wrapper.pattern.cuts text).map fun cut => surplus false cut.2).sum :=
    (congrArg _ (Regex.toList_eq_cuts wrapper.guard wrapper.stretches text)).trans
      (Text.surplus_of_cuts isPlain.shown wrapped false)
  have each : ∀ amount ∈ (wrapper.pattern.cuts text).map fun cut => surplus false cut.2,
      0 ≤ amount := by
    intro amount member
    obtain ⟨cut, cutMember, rfl⟩ := List.mem_map.mp member
    exact (wrapped cut cutMember).surplus_nonneg
  rw [String.toList_ofList, before]
  have positive := List.sum_nonneg each
  refine ⟨by omega, fun same cut member => ?_⟩
  have none : ((wrapper.pattern.cuts text).map fun cut => surplus false cut.2).sum = 0 := by omega
  exact List.all_zero_of_le_zero_le_of_sum_eq_zero each none (List.mem_map_of_mem member)

/-- A rule that cuts each wrapper whole keeps a text balanced. -/
theorem isBalanced_replaced
    {replaced : String} (ran : wrapper.rule.1.replace wrapper.rule.2 text = .ok replaced)
    (balanced : IsBalanced text.toList)
    (whole : ∀ cut ∈ wrapper.pattern.cuts text, IsBalanced cut.2) :
    IsBalanced replaced.toList := by
  rw [replace_rule isPlain text] at ran
  obtain rfl := Except.ok.inj ran
  have before := Regex.toList_eq_cuts wrapper.guard wrapper.stretches text
  unfold IsBalanced at balanced ⊢
  rw [String.toList_ofList,
    Text.scan_of_whole isPlain.shown (isWrapped_of_mem_cuts isPlain text) whole]
  exact (congrArg _ before.symm).trans balanced

/-- In a balanced text a wrapper that closes as many angle brackets as it opens is balanced. -/
theorem whole_of_surplus (balanced : IsBalanced text.toList)
    (even : ∀ cut ∈ wrapper.pattern.cuts text, surplus false cut.2 = 0) :
    ∀ cut ∈ wrapper.pattern.cuts text, IsBalanced cut.2 := by
  intro cut member
  have before := Regex.toList_eq_cuts wrapper.guard wrapper.stretches text
  have known : Text.scan false [] _ = some [] := (congrArg _ before.symm).trans balanced
  obtain ⟨equals, pending, next, here⟩ := Text.exists_scan_of_mem known cut member
  exact (isWrapped_of_mem_cuts isPlain text cut member).isBalanced here (even cut member)

end

end Wrapper

/-! ## Rules one after the other -/

/-- Whether all that the rules match, each in the text that the ones before it leave, opens one
angle bracket only and does not end with an arrow. -/
def cutsWhole : List (Expression × String) → String → Bool
  | [], _ => true
  | (expression, replacement) :: rest, text =>
    ((expression.pattern.cuts text).all fun cut => Text.closesItself cut.2) &&
      match expression.replace replacement text with
      | .ok replaced => cutsWhole rest replaced
      | .error _ => true

/-- Rules for plain wrappers keep a balanced text balanced exactly when they cut each wrapper
whole: a closing bracket that is left behind is never taken away. -/
theorem applyRules_plain
    {wrappers : List Wrapper} (plain : ∀ wrapper ∈ wrappers, wrapper.IsPlain) (text : String) :
    ∃ cleaned, Cleaner.applyRules text (wrappers.map Wrapper.rule) = .ok cleaned ∧
      surplus false cleaned.toList ≤ surplus false text.toList ∧
      (IsBalanced text.toList →
        (IsBalanced cleaned.toList ↔ cutsWhole (wrappers.map Wrapper.rule) text = true)) := by
  induction wrappers generalizing text with
  | nil => exact ⟨text, rfl, Int.le_refl _, fun balanced => ⟨fun _ => rfl, fun _ => balanced⟩⟩
  | cons wrapper rest ih =>
    obtain ⟨isPlain, others⟩ := List.forall_mem_cons.mp plain
    obtain ⟨replaced, ran⟩ :
        ∃ replaced, wrapper.rule.1.replace wrapper.rule.2 text = .ok replaced :=
      ⟨_, Wrapper.replace_rule isPlain text⟩
    obtain ⟨cleaned, applied, fewer, balances⟩ := ih others replaced
    obtain ⟨taken, even⟩ := Wrapper.surplus_replaced isPlain text ran
    have here : cutsWhole ((wrapper :: rest).map Wrapper.rule) text =
        (((wrapper.pattern.cuts text).all fun cut => Text.closesItself cut.2) &&
          cutsWhole (rest.map Wrapper.rule) replaced) := by
      rw [List.map_cons, cutsWhole.eq_def]
      simp only [ran]
      rfl
    refine ⟨cleaned, ?_, Int.le_trans fewer taken, fun balanced => ?_⟩
    · rw [List.map_cons, Cleaner.applyRules.eq_def]
      simp only [ran]
      exact applied
    · have wrapped := Wrapper.isWrapped_of_mem_cuts isPlain text
      have keeps := Wrapper.isBalanced_replaced isPlain text ran balanced
      have whole := Wrapper.whole_of_surplus isPlain text balanced
      rw [here, Bool.and_eq_true, List.all_eq_true]
      constructor
      · intro result
        have none := result.surplus_eq
        have start := balanced.surplus_eq
        have evened := even (by omega)
        exact ⟨fun cut member => (wrapped cut member).surplus_eq_zero_iff.mp (evened cut member),
          (balances (keeps (whole evened))).mp result⟩
      · rintro ⟨closed, later⟩
        have evened : ∀ cut ∈ wrapper.pattern.cuts text, surplus false cut.2 = 0 :=
          fun cut member => (wrapped cut member).surplus_eq_zero_iff.mpr (closed cut member)
        exact (balances (keeps (whole evened))).mpr later

/-! ## The wrappers that hold by default -/

/-- The wrappers that are shown by a name when nothing else is set. -/
def wrappers : List Wrapper :=
  [⟨"ZodObject", none, false, "ZodObject"⟩, ⟨"ZodArray", none, false, "ZodArray"⟩,
    ⟨"ZodOptional", none, false, "ZodOptional"⟩, ⟨"ZodDefault", none, false, "ZodDefault"⟩,
    ⟨"ZodType", none, false, "ZodType"⟩,
    ⟨"Server", some "ClientToServerEvents", false, "SocketIOServer"⟩,
    ⟨"Server", some "DefaultEventsMap", false, "SocketIOServer"⟩,
    ⟨"Socket", some "DefaultEventsMap", false, "SocketIOSocket"⟩,
    ⟨"TransactionSql", some "PostgresType", false, "PostgresTransactionConnection"⟩,
    ⟨"Sql", some "PostgresType", true, "PostgresConnection"⟩]

/-- The four parts of a rule, which can be compared. -/
def ruleParts (rule : Expression × String) : Pattern × Nat × List (String × Nat) × String :=
  (rule.1.pattern, rule.1.groups, rule.1.names, rule.2)

theorem ruleParts_injective : Function.Injective ruleParts := by
  rintro ⟨⟨pattern, groups, names⟩, shown⟩ ⟨⟨otherPattern, otherGroups, otherNames⟩, otherShown⟩
    same
  cases same
  rfl

theorem defaultRules_eq :
    (Cleaner.ofRules Settings.defaultWrapperRules).rules = wrappers.map Wrapper.rule := by
  refine List.map_injective_iff.mpr ruleParts_injective ?_
  decide +kernel

theorem wrappers_plain : ∀ wrapper ∈ wrappers, wrapper.IsPlain := by
  have words : ∀ wrapper ∈ wrappers, ∀ word ∈ [wrapper.name, wrapper.shown],
      word.toList ≠ [] ∧ word.toList.all (decide <| IsPlainChar ·) = true ∧
        word.toList.getLast? ≠ some '=' := by decide +kernel
  have marks : ∀ wrapper ∈ wrappers, ∀ mark ∈ wrapper.mark, '>' ∉ mark.toList := by decide +kernel
  have templates : ∀ wrapper ∈ wrappers,
      (Regex.Template.parts wrapper.rule.1 (wrapper.shown.toList.length + 1)
        wrapper.shown.toList).toOption = some (wrapper.shown.toList.map fun c => .fixed [c]) := by
    decide +kernel
  intro wrapper member
  have plainWord : ∀ word ∈ [wrapper.name, wrapper.shown], Text.IsPlainWord word.toList := by
    intro word listed
    obtain ⟨nonempty, plain, ending⟩ := words wrapper member word listed
    exact ⟨nonempty, fun c inside => of_decide_eq_true (List.all_eq_true.mp plain c inside), ending⟩
  exact {
    name := plainWord wrapper.name (by simp)
    mark := marks wrapper member
    shown := plainWord wrapper.shown (by simp)
    read := eq_ok_of_toOption (templates wrapper member) }

/-- Cleaning by the default rules keeps a balanced text balanced exactly when no rule matches a
list of arguments that holds another list of arguments or stops at the arrow of a function type. -/
theorem clean_isBalanced_iff
    {text : String} (balanced : IsBalanced text.toList) (qualifies : QualifiesNames text) :
    ∃ cleaned, (Cleaner.ofRules Settings.defaultWrapperRules).clean text = .ok cleaned ∧
      (IsBalanced cleaned.toList ↔
        cutsWhole (Cleaner.ofRules Settings.defaultWrapperRules).rules
          (moduleQualifier.replaceBy "" text) = true) := by
  obtain ⟨cleaned, applied, -, balances⟩ :=
    applyRules_plain wrappers_plain (moduleQualifier.replaceBy "" text)
  rw [← defaultRules_eq] at applied balances
  refine ⟨Text.collapse cleaned, by rw [Cleaner.clean, applied]; rfl, ?_⟩
  rw [Text.collapse, String.toList_ofList, Text.isBalanced_collapseChars_iff]
  exact balances (isBalanced_withoutQualifiers balanced qualifies)

/-- A list of strings of another module is cleaned whole. -/
theorem qualified_array_cleaned :
    ∃ cleaned, (Cleaner.ofRules Settings.defaultWrapperRules).clean
        "import(\"./zod\").ZodArray<ZodString>[]" = .ok cleaned ∧ IsBalanced cleaned.toList := by
  have pieces : moduleQualifier.cuts "import(\"./zod\").ZodArray<ZodString>[]" =
      [([], "import(\"./zod\").".toList)] := by decide +kernel
  have behind :
      (moduleQualifier.rest "import(\"./zod\").ZodArray<ZodString>[]").head? ≠ some '>' := by
    decide +kernel
  have path : IsBalanced "import(\"./zod\").".toList := by decide +kernel
  have whole : cutsWhole (Cleaner.ofRules Settings.defaultWrapperRules).rules
      (moduleQualifier.replaceBy "" "import(\"./zod\").ZodArray<ZodString>[]") = true := by
    decide +kernel
  have balanced : IsBalanced "import(\"./zod\").ZodArray<ZodString>[]".toList := by decide +kernel
  obtain ⟨cleaned, ran, balances⟩ := clean_isBalanced_iff balanced
    ⟨by rw [pieces]; simpa using path, by rw [pieces]; exact .single behind⟩
  exact ⟨cleaned, ran, balances.mpr whole⟩

/-- The inner list of arguments ends the match of the rule, and so does the arrow of a function
type: a closing bracket stays behind. -/
theorem nested_arguments_cut_short :
    (IsBalanced "ZodObject<Array<string>>".toList ∧
      ((Cleaner.ofRules Settings.defaultWrapperRules).clean "ZodObject<Array<string>>").toOption =
        some "ZodObject>" ∧ ¬ IsBalanced "ZodObject>".toList) ∧
    (IsBalanced "ZodType<(a: string) => void>".toList ∧
      ((Cleaner.ofRules Settings.defaultWrapperRules).clean
        "ZodType<(a: string) => void>").toOption = some "ZodType void>" ∧
      ¬ IsBalanced "ZodType void>".toList) := by
  decide +kernel

end Shape
end ModuleAtlas
