import ModuleAtlas.Proofs.Shape.Budget
import ModuleAtlas.Proofs.Types.MemberTwins

/-!
# Shapes in twin runs

Types that are alike have shapes that are the same but for the spelling of types.  Twin runs have
the same number of expansions left.  It is the one thing that they may also have different: a run
that does not use up what it has comes to the same with more.
-/

namespace ModuleAtlas

open ModuleAtlas.Types Session

/-! ## Shapes in two spellings -/

/-- Shapes that are built in the same way from texts that stand for each other. -/
inductive Shape.Spelled (spelling : Spelling) : Shape → Shape → Prop where
  | primitive {text other : String} (spelled : spelling.spelled text other) :
      Spelled spelling (.primitive text) (.primitive other)
  | literal {text other : String} (spelled : spelling.spelled text other) :
      Spelled spelling (.literal text) (.literal other)
  | reference {text other : String} (spelled : spelling.spelled text other) :
      Spelled spelling (.reference text) (.reference other)
  | verbatim {text other : String} (spelled : spelling.spelled text other) :
      Spelled spelling (.verbatim text) (.verbatim other)
  | array {element other : Shape} (related : Spelled spelling element other) :
      Spelled spelling (.array element) (.array other)
  | tuple {elements others : List Shape} (related : Listwise (Spelled spelling) elements others) :
      Spelled spelling (.tuple elements) (.tuple others)
  | function {parameters others : List (String × Shape)} {returns other : Shape}
      (parametersRelated : Listwise (Named (Spelled spelling)) parameters others)
      (related : Spelled spelling returns other) :
      Spelled spelling (.function parameters returns) (.function others other)
  | union {members others : List Shape} (related : Listwise (Spelled spelling) members others) :
      Spelled spelling (.union members) (.union others)
  | intersection {members others : List Shape}
      (related : Listwise (Spelled spelling) members others) :
      Spelled spelling (.intersection members) (.intersection others)
  | object {properties others : List (String × Shape)} {truncated : Bool}
      (related : Listwise (Named (Spelled spelling)) properties others) :
      Spelled spelling (.object properties truncated) (.object others truncated)

mutual

/-- Where all texts are spelled in one way, such shapes are the same. -/
theorem Shape.Spelled.eq : ∀ {shape other : Shape}, Spelled .same shape other → shape = other
  | _, _, .primitive rfl => rfl
  | _, _, .literal rfl => rfl
  | _, _, .reference rfl => rfl
  | _, _, .verbatim rfl => rfl
  | _, _, .array related => by rw [related.eq]
  | _, _, .tuple related => by rw [Shape.eq_of_spelled related]
  | _, _, .function parameters related => by rw [Shape.eq_of_named parameters, related.eq]
  | _, _, .union related => by rw [Shape.eq_of_spelled related]
  | _, _, .intersection related => by rw [Shape.eq_of_spelled related]
  | _, _, .object related => by rw [Shape.eq_of_named related]

theorem Shape.eq_of_spelled :
    ∀ {shapes others : List Shape}, Listwise (Spelled .same) shapes others → shapes = others
  | _, _, .nil => rfl
  | _, _, .cons head tail => by rw [head.eq, Shape.eq_of_spelled tail]

theorem Shape.eq_of_named : ∀ {shapes others : List (String × Shape)},
    Listwise (Named (Spelled .same)) shapes others → shapes = others
  | _, _, .nil => rfl
  | _, _, .cons ⟨related⟩ tail => by rw [related.eq, Shape.eq_of_named tail]

end

variable {edition : Edition} {links more : Links} {α β γ δ : Type}

namespace Expansion

/-! ## Runs that take expansions -/

/-- No run puts expansions back. -/
def Shrinks (expansion : Expansion α) : Prop :=
  Relates expansion fun before _ left => left ≤ before

theorem shrinks_pure {value : α} : Shrinks (pure value) :=
  relates_pure fun _ => Nat.le_refl _

variable {expansion : Expansion α} {task : Task Session α}

theorem Shrinks.bind {next : α → Expansion β}
    (shrinks : Shrinks expansion) (goesOn : ∀ value, Shrinks (next value)) :
    Shrinks (expansion >>= next) :=
  Relates.bind shrinks fun value => (goesOn value).mono fun _ _ _ further _ first =>
    Nat.le_trans further first

theorem Shrinks.after_lift {next : α → Expansion β}
    (goesOn : ∀ value, Shrinks (next value)) :
    Shrinks (liftM task >>= next) :=
  Relates.after_lift goesOn

theorem shrinks_lift (task : Task Session α) : Shrinks (liftM task : Expansion α) :=
  (relates_lift task).mono fun _ _ _ same => Nat.le_of_eq same

theorem shrinks_spend : Shrinks spend := by
  refine relates_spend.mono fun before granted left spent => ?_
  cases granted with
  | true => exact Nat.le_of_succ_le (Nat.le_of_eq spent.symm)
  | false => exact Nat.le_of_eq spent.symm

/-! ## Expansions that are followed -/

variable {relation wider : α → β → Prop} {further : γ → δ → Prop} {other : Expansion β}

/-- Whatever the first expansion answers, the second one answers as well, from sessions that match
and with as many expansions left; and it fails as the first one fails.  It may have more to spare
than the first one, unless that one uses up its own or fails. -/
structure Followed (edition : Edition) (links : Links) (relation : α → β → Prop)
    (expansion : Expansion α) (other : Expansion β) : Prop where
  answers : ∀ before spare left journal twin value after,
    Matches edition links journal.state twin.state → (spare = 0 ∨ 0 < left) →
    expansion before edition.tree journal = (.ok (value, left), after) →
    ∃ more answer twinAfter,
      other (before + spare) edition.copy twin = (.ok (answer, left + spare), twinAfter) ∧
      Touches links more journal.state after.state ∧
      Matches edition more after.state twinAfter.state ∧ relation value answer
  fails : ∀ before journal twin failure after, Matches edition links journal.state twin.state →
    expansion before edition.tree journal = (.error failure, after) →
    ∃ more twinAfter, other before edition.copy twin = (.error failure, twinAfter) ∧
      Touches links more journal.state after.state ∧
      Matches edition more after.state twinAfter.state

/-- Whatever the first expansion answers without using up the expansions left, the second one
answers as well, from sessions that match and with at least as many expansions left. -/
def FollowedSparing (tree : FileTree) (root : Path) (links : Links)
    (expansion other : Expansion α) : Prop :=
  ∀ before spare left journal twin value after,
    Matches (.same tree root) links journal.state twin.state →
    0 < left → expansion before tree journal = (.ok (value, left), after) →
    ∃ more twinAfter, other (before + spare) tree twin = (.ok (value, left + spare), twinAfter) ∧
      Touches links more journal.state after.state ∧
      Matches (.same tree root) more after.state twinAfter.state

theorem Followed.sparing {tree : FileTree} {root : Path} {expansion other : Expansion α}
    (followed : Followed (.same tree root) links Eq expansion other) :
    FollowedSparing tree root links expansion other := by
  intro before spare left journal twin value after matched remains ran
  obtain ⟨more, _, twinAfter, otherRan, touches, furtherMatched, rfl⟩ :=
    followed.answers before spare left journal twin value after matched (.inr remains) ran
  exact ⟨more, twinAfter, otherRan, touches, furtherMatched⟩

theorem Followed.mono
    (followed : Followed edition links relation expansion other)
    (implied : ∀ value answer, relation value answer → wider value answer) :
    Followed edition links wider expansion other := by
  refine ⟨fun before spare left journal twin value after matched remains ran => ?_, followed.fails⟩
  obtain ⟨more, answer, twinAfter, otherRan, touches, furtherMatched, related⟩ :=
    followed.answers before spare left journal twin value after matched remains ran
  exact ⟨more, answer, twinAfter, otherRan, touches, furtherMatched, implied _ _ related⟩

/-- With as many expansions left, a followed expansion comes to the same. -/
theorem Followed.run'
    (followed : Followed edition links relation expansion other) (before : Nat) :
    Session.Followed edition links (fun _ => relation) (expansion.run' before)
      (other.run' before) := by
  intro journal twin outcome after holds ran
  cases started : expansion before edition.tree journal with
  | mk first last =>
    cases first with
    | error failure =>
      obtain ⟨more, twinAfter, otherRan, touches, matched⟩ :=
        followed.fails before journal twin failure last holds started
      rw [run'_of_error started] at ran
      cases ran
      exact ⟨more, .error failure, twinAfter, run'_of_error otherRan, touches, matched,
        .error failure⟩
    | ok answer =>
      obtain ⟨value, left⟩ := answer
      obtain ⟨more, answer, twinAfter, otherRan, touches, matched, related⟩ :=
        followed.answers before 0 left journal twin value last holds (.inl rfl) started
      rw [run'_of_returns started] at ran
      cases ran
      exact ⟨more, .ok answer, twinAfter, run'_of_returns otherRan, touches, matched, .ok related⟩

/-- A run that follows itself goes on to hold what it held. -/
theorem Followed.itself {tree : FileTree} {root : Path} {relation : α → α → Prop}
    {before left : Nat}
    {journal after : Journal Session} {value : α}
    (followed : Followed (.same tree root) links relation expansion expansion)
    (standing : Matches (.same tree root) links journal.state journal.state)
    (ran : expansion before tree journal = (.ok (value, left), after)) :
    ∃ more, links.Below more ∧ Matches (.same tree root) more after.state after.state := by
  obtain ⟨more, _, twinAfter, again, touches, matched, _⟩ :=
    followed.answers before 0 left journal journal value after standing (.inl rfl) ran
  rw [Nat.add_zero, ran] at again
  cases again
  exact ⟨more, touches.below, matched⟩

theorem followed_pure {value : α} {answer : β} (related : relation value answer) :
    Followed edition links relation (pure value) (pure answer) := by
  refine ⟨?_, ?_⟩
  · intro before spare left journal twin found after holds remains ran
    cases ran
    exact ⟨links, answer, twin, rfl, .refl _ _, holds, related⟩
  · intro before journal twin failure after holds ran
    cases ran

theorem followed_spend : Followed edition links Eq spend spend := by
  refine ⟨?_, ?_⟩
  · intro before spare left journal twin granted after holds remains ran
    cases before with
    | zero =>
      cases ran
      obtain rfl : spare = 0 := remains.resolve_right (Nat.lt_irrefl 0)
      exact ⟨links, false, twin, rfl, .refl _ _, holds, rfl⟩
    | succ before =>
      cases ran
      refine ⟨links, true, twin, ?_, .refl _ _, holds, rfl⟩
      rw [Nat.succ_add]
      rfl
  · intro before journal twin failure after holds ran
    cases before with
    | zero => cases ran
    | succ before => cases ran

/-- Expansions that follow each other go on to expansions that do. -/
theorem Followed.bind {next : α → Expansion γ}
    {otherNext : β → Expansion δ}
    (followed : Followed edition links relation expansion other)
    (shrinks : ∀ value, Shrinks (next value))
    (goesOn : ∀ more, links.Below more → ∀ value answer, relation value answer →
      Followed edition more further (next value) (otherNext answer)) :
    Followed edition links further (expansion >>= next) (other >>= otherNext) := by
  refine ⟨?_, ?_⟩
  · intro before spare left journal twin value after holds remains ran
    obtain ⟨found, between, middle, started, finished⟩ := bind_returns ran
    have stillRemains : spare = 0 ∨ 0 < between := remains.imp_right fun positive =>
      Nat.lt_of_lt_of_le positive
        (shrinks found edition.tree middle between value left after finished)
    obtain ⟨more, answer, twinMiddle, otherStarted, touches, matched, related⟩ :=
      followed.answers before spare between journal twin found middle holds stillRemains started
    obtain ⟨most, last, twinAfter, otherFinished, furtherTouches, furtherMatched, lastRelated⟩ :=
      (goesOn more touches.below found answer related).answers between spare left middle twinMiddle
        value after matched remains finished
    exact ⟨most, last, twinAfter, (bind_of_returns otherStarted).trans otherFinished,
      touches.trans furtherTouches, furtherMatched, lastRelated⟩
  · intro before journal twin failure after holds ran
    rcases bind_fails ran with started | ⟨found, between, middle, started, finished⟩
    · obtain ⟨more, twinAfter, otherStarted, touches, matched⟩ :=
        followed.fails before journal twin failure after holds started
      exact ⟨more, twinAfter, bind_of_fails otherStarted, touches, matched⟩
    · obtain ⟨more, answer, twinMiddle, otherStarted, touches, matched, related⟩ :=
        followed.answers before 0 between journal twin found middle holds (.inl rfl) started
      obtain ⟨most, twinAfter, otherFinished, furtherTouches, furtherMatched⟩ :=
        (goesOn more touches.below found answer related).fails between middle twinMiddle failure
          after matched finished
      exact ⟨most, twinAfter, (bind_of_returns otherStarted).trans otherFinished,
        touches.trans furtherTouches, furtherMatched⟩

theorem Followed.map {image : α → γ}
    {otherImage : β → δ} (followed : Followed edition links relation expansion other)
    (implied : ∀ value answer, relation value answer →
      further (image value) (otherImage answer)) :
    Followed edition links further (do return image (← expansion))
      (do return otherImage (← other)) :=
  followed.bind (fun _ => shrinks_pure) fun _ _ _ _ related => followed_pure (implied _ _ related)

/-- An expansion after a task that is followed. -/
theorem followed_after {relation : Links → α → β → Prop}
    {other : Task Session β}
    {next : α → Expansion γ} {otherNext : β → Expansion δ}
    (followed : Session.Followed edition links relation task other)
    (goesOn : ∀ more, links.Below more → ∀ value answer, relation more value answer →
      Followed edition more further (next value) (otherNext answer)) :
    Followed edition links further (liftM task >>= next) (liftM other >>= otherNext) := by
  refine ⟨?_, ?_⟩
  · intro before spare left journal twin value after holds remains ran
    obtain ⟨found, between, middle, started, finished⟩ := bind_returns ran
    obtain ⟨rfl, ranTask⟩ := lift_returns started
    obtain ⟨more, answer, twinMiddle, otherRan, touches, matched, related⟩ :=
      followed.answers holds ranTask
    obtain ⟨most, last, twinAfter, otherFinished, furtherTouches, furtherMatched, lastRelated⟩ :=
      (goesOn more touches.below found answer related).answers _ spare left middle twinMiddle value
        after matched remains finished
    exact ⟨most, last, twinAfter, (bind_of_returns (lift_of_returns otherRan _)).trans
      otherFinished,
      touches.trans furtherTouches, furtherMatched, lastRelated⟩
  · intro before journal twin failure after holds ran
    rcases bind_fails ran with started | ⟨found, between, middle, started, finished⟩
    · obtain ⟨more, twinAfter, otherRan, touches, matched⟩ :=
        followed.fails holds (lift_fails started)
      exact ⟨more, twinAfter, bind_of_fails (lift_of_fails otherRan _), touches, matched⟩
    · obtain ⟨rfl, ranTask⟩ := lift_returns started
      obtain ⟨more, answer, twinMiddle, otherRan, touches, matched, related⟩ :=
        followed.answers holds ranTask
      obtain ⟨most, twinAfter, otherFinished, furtherTouches, furtherMatched⟩ :=
        (goesOn more touches.below found answer related).fails _ middle twinMiddle failure after
          matched finished
      exact ⟨most, twinAfter, (bind_of_returns (lift_of_returns otherRan _)).trans otherFinished,
        touches.trans furtherTouches, furtherMatched⟩

/-- Tasks that follow each other do so as steps of an expansion. -/
theorem followed_lift {other : Task Session β}
    (followed : Session.Followed edition links (fun _ => relation) task other) :
    Followed edition links relation (liftM task : Expansion α) (liftM other : Expansion β) := by
  refine ⟨?_, ?_⟩
  · intro before spare left journal twin value after holds remains ran
    obtain ⟨rfl, ranTask⟩ := lift_returns ran
    obtain ⟨more, answer, twinAfter, otherRan, touches, matched, related⟩ :=
      followed.answers holds ranTask
    exact ⟨more, answer, twinAfter, lift_of_returns otherRan _, touches, matched, related⟩
  · intro before journal twin failure after holds ran
    obtain ⟨more, twinAfter, otherRan, touches, matched⟩ := followed.fails holds (lift_fails ran)
    exact ⟨more, twinAfter, lift_of_fails otherRan _, touches, matched⟩

end Expansion

namespace Simplifier

open Expansion Spelling

variable {simplifier : Simplifier} {levels : Nat}
  {simplify otherSimplify : TypeTerm → Expansion Shape} {revision : Revision}

/-! ## Shapes never put expansions back -/

theorem shrinks_each (shrinks : ∀ type, Shrinks (simplify type)) :
    ∀ types, Shrinks (each simplify types)
  | [] => shrinks_pure
  | type :: rest =>
    (shrinks type).bind fun _ => (shrinks_each shrinks rest).bind fun _ => shrinks_pure

theorem shrinks_eachNamed (shrinks : ∀ type, Shrinks (simplify type)) :
    ∀ types, Shrinks (eachNamed simplify types)
  | [] => shrinks_pure
  | (_, type) :: rest =>
    (shrinks type).bind fun _ => (shrinks_eachNamed shrinks rest).bind fun _ => shrinks_pure

theorem shrinks_objectShape (shrinks : ∀ type, Shrinks (simplify type)) (type target : TypeTerm) :
    Shrinks (simplifier.objectShape levels simplify type target) := by
  refine Shrinks.after_lift fun properties => ?_
  split
  · exact shrinks_pure
  · refine Shrinks.after_lift fun name => ?_
    dsimp only
    split
    · exact shrinks_pure
    · exact (shrinks_eachNamed shrinks _).bind fun _ => shrinks_pure

theorem shrinks_functionShape (shrinks : ∀ type, Shrinks (simplify type))
    (signature : Signature TypeTerm) :
    Shrinks (functionShape simplify signature) := by
  refine Shrinks.after_lift fun parameters => ?_
  refine (shrinks_eachNamed shrinks parameters).bind fun _ => ?_
  exact (shrinks signature.returns).bind fun _ => shrinks_pure

theorem shrinks_expand {simplifySignature : Signature TypeTerm → Expansion Shape}
    (shrinks : ∀ type, Shrinks (simplify type))
    (shrinksSignature : ∀ signature, Shrinks (simplifySignature signature))
    (type target : TypeTerm) :
    Shrinks (simplifier.expand levels simplify simplifySignature type target) := by
  unfold expand
  split
  · exact shrinks_pure
  · exact shrinks_pure
  · exact (shrinks _).bind fun _ => shrinks_pure
  · exact (shrinks_each shrinks _).bind fun _ => shrinks_pure
  · exact (shrinks_each shrinks _).bind fun _ => shrinks_pure
  · exact (shrinks_each shrinks _).bind fun _ => shrinks_pure
  · exact shrinks_objectShape shrinks type _
  · exact shrinksSignature _
  all_goals exact Shrinks.after_lift fun _ => shrinks_pure

/-- Level by level, the budget never grows. -/
theorem shrinks_shapeAt (simplifier : Simplifier) (levels : Nat) :
    (∀ visited type, Shrinks (simplifier.shapeAt levels visited type)) ∧
      ∀ visited signature, Shrinks (simplifier.signatureAt levels visited signature) := by
  induction levels with
  | zero => exact ⟨fun _ _ => shrinks_pure, fun _ _ => shrinks_pure⟩
  | succ levels ih =>
    obtain ⟨types, signatures⟩ := ih
    refine ⟨fun visited type => ?_, fun visited => shrinks_functionShape (types visited)⟩
    unfold shapeAt
    dsimp only
    split
    · exact shrinks_lift _
    split
    · exact shrinks_pure
    split
    · exact shrinks_pure
    refine shrinks_spend.bind fun granted => ?_
    split
    · exact Shrinks.after_lift fun target =>
        shrinks_expand (types _) (signatures _) type target
    · exact shrinks_lift _

/-! ## Names and listed parts -/

/-- Texts of both editions that stand for each other are cleaned alike. -/
structure Presents (simplifier : Simplifier) (edition : Edition) : Prop where
  faithful : edition.Faithful
  cleans : ∀ {text other}, edition.revision.spelling.spelled text other →
    Outcomes edition.revision.spelling.spelled (simplifier.cleaner.clean text)
      (simplifier.cleaner.clean other)

theorem presents_same (simplifier : Simplifier) (tree : FileTree) (root : Path) :
    simplifier.Presents (.same tree root) := by
  refine ⟨Edition.faithful_same tree root, ?_⟩
  rintro text _ rfl
  exact outcomes_eq rfl

/-- Types that are alike, under the same names. -/
abbrev AlikeNamed (revision : Revision) (links : Links) :
    List (String × TypeTerm) → List (String × TypeTerm) → Prop :=
  Listwise (Named (Alike revision links))

theorem named_mono (below : links.Below more)
    {types others : List (String × TypeTerm)}
    (related : AlikeNamed revision links types others) :
    AlikeNamed revision more types others :=
  related.mono fun _ _ ⟨alike⟩ => ⟨alike.mono below⟩

/-- Properties that are alike are shown under the same labels. -/
theorem labelled_related {properties others : List (Property TypeTerm)}
    (related : Listwise (AlikeProperty revision links) properties others) :
    AlikeNamed revision links
      (properties.map fun property => (propertyLabel property, property.type))
      (others.map fun property => (propertyLabel property, property.type)) := by
  refine related.map ?_
  rintro _ _ ⟨alike, _⟩
  exact ⟨alike⟩

theorem firstOf_related {relation : α → β → Prop} {values : List α} {others : List β}
    (related : Listwise relation values others) (count : Int) :
    Listwise relation (firstOf count values) (firstOf count others) := by
  unfold firstOf
  rw [related.length_eq]
  split
  · exact related.take _
  · exact related.take _

/-- A parameter as it is shown when it is not opened up. -/
theorem listed_related {parameters others : List (Parameter TypeTerm)}
    (related : Listwise (AlikeParameter revision links) parameters others) :
    AlikeNamed revision links
      (parameters.map fun parameter =>
        (if parameter.isRest then "..." ++ parameter.name else parameter.name, parameter.type))
      (others.map fun parameter =>
        (if parameter.isRest then "..." ++ parameter.name else parameter.name,
          parameter.type)) := by
  refine related.map ?_
  rintro _ _ ⟨alike, _, _⟩
  exact ⟨alike⟩

theorem followed_patternProperties {parameter twin : Parameter TypeTerm}
    (faithful : edition.Faithful)
    (related : AlikeParameter edition.revision links parameter twin) :
    Session.Followed edition links
      (fun links => Listwise (AlikeProperty edition.revision links))
      (patternProperties parameter) (patternProperties twin) := by
  have alike : Alike edition.revision links parameter.type twin.type := by
    obtain ⟨alike, _, _⟩ := related
    exact alike
  have bound : Listwise (AlikeProperty edition.revision links) parameter.bound twin.bound := by
    obtain ⟨_, bound, _⟩ := related
    exact bound
  refine (followed_isObject faithful alike).bind ?_
  rintro more below isObject _ rfl
  have finish : ∀ most, more.Below most → ∀ properties others : List (Property TypeTerm),
      Listwise (AlikeProperty edition.revision most) properties others →
      Session.Followed edition most
        (fun links => Listwise (AlikeProperty edition.revision links))
        (return if properties.isEmpty then parameter.bound else properties)
        (return if others.isEmpty then twin.bound else others) := by
    intro most further properties others related
    rw [related.isEmpty_eq]
    split
    · exact Session.followed_pure (properties_mono (below.trans further) bound)
    · exact Session.followed_pure related
  dsimp only
  split
  · exact (followed_propertiesOf faithful (alike.mono below)).bind finish
  · exact finish more (.refl more) [] [] .nil

theorem followed_shownParameters {signature twin : Signature TypeTerm}
    (faithful : edition.Faithful)
    (related : AlikeSignature edition.revision links signature twin) :
    Session.Followed edition links (AlikeNamed edition.revision) (shownParameters signature)
      (shownParameters twin) := by
  obtain ⟨parameters, _⟩ := related
  have listed := listed_related parameters
  unfold shownParameters
  cases parameters with
  | nil => exact Session.followed_pure listed
  | cons head tail =>
    cases tail with
    | cons next rest => exact Session.followed_pure listed
    | nil =>
      have opened : Session.Followed edition links _ _ _ :=
        followed_patternProperties faithful head
      obtain ⟨alike, bound, _⟩ := head
      dsimp only at opened ⊢
      split
      · exact Session.followed_pure listed
      · refine opened.bind fun more below properties others propertiesRelated => ?_
        cases propertiesRelated with
        | nil => exact Session.followed_pure (.cons ⟨alike.mono below⟩ .nil)
        | cons first rest => exact Session.followed_pure (labelled_related (.cons first rest))

/-! ## Lists of shapes -/

section Parts

/-- Types that are alike are shown as the same, but for their spelling. -/
def ShowAlike (edition : Edition) (links : Links)
    (simplify otherSimplify : TypeTerm → Expansion Shape) : Prop :=
  ∀ more, links.Below more → ∀ type twin, Alike edition.revision more type twin →
    Followed edition more (Shape.Spelled edition.revision.spelling) (simplify type)
      (otherSimplify twin)

theorem ShowAlike.mono (shows : ShowAlike edition links simplify otherSimplify)
    (below : links.Below more) :
    ShowAlike edition more simplify otherSimplify :=
  fun _ further => shows _ (below.trans further)

theorem ShowAlike.here {type twin : TypeTerm}
    (shows : ShowAlike edition links simplify otherSimplify)
    (related : Alike edition.revision links type twin) :
    Followed edition links (Shape.Spelled edition.revision.spelling) (simplify type)
      (otherSimplify twin) :=
  shows links (.refl links) type twin related

theorem followed_each {types others : List TypeTerm} (shrinks : ∀ type, Shrinks (simplify type))
    (shows : ShowAlike edition links simplify otherSimplify)
    (related : Listwise (Alike edition.revision links) types others) :
    Followed edition links (Listwise (Shape.Spelled edition.revision.spelling))
      (each simplify types) (each otherSimplify others) := by
  induction types generalizing links others with
  | nil =>
    cases related
    exact followed_pure .nil
  | cons type rest ih =>
    cases related with
    | cons head tail =>
      refine (shows.here head).bind
        (fun _ => (shrinks_each shrinks rest).bind fun _ => shrinks_pure)
        fun more below _ _ shape => ?_
      exact (ih (shows.mono below) (alikes_mono below tail)).map fun _ _ shapes =>
        .cons shape shapes

theorem followed_eachNamed {types others : List (String × TypeTerm)}
    (shrinks : ∀ type, Shrinks (simplify type))
    (shows : ShowAlike edition links simplify otherSimplify)
    (related : AlikeNamed edition.revision links types others) :
    Followed edition links (Listwise (Named (Shape.Spelled edition.revision.spelling)))
      (eachNamed simplify types) (eachNamed otherSimplify others) := by
  induction types generalizing links others with
  | nil =>
    cases related
    exact followed_pure .nil
  | cons type rest ih =>
    cases related with
    | cons head tail =>
      obtain ⟨alike⟩ := head
      refine (shows.here alike).bind
        (fun _ => (shrinks_eachNamed shrinks rest).bind fun _ => shrinks_pure)
        fun more below _ _ shape => ?_
      exact (ih (shows.mono below) (named_mono below tail)).map fun _ _ shapes =>
        .cons ⟨shape⟩ shapes

/-- Signatures that are alike are shown as the same, but for their spelling. -/
def ShowSignatureAlike (edition : Edition) (links : Links)
    (simplify otherSimplify : Signature TypeTerm → Expansion Shape) : Prop :=
  ∀ more, links.Below more → ∀ signature twin,
    AlikeSignature edition.revision more signature twin →
    Followed edition more (Shape.Spelled edition.revision.spelling) (simplify signature)
      (otherSimplify twin)

/-! ## One level -/

variable {text other : String}

/-- A name that is not empty, or else another text. -/
theorem spelled_shownName {spelling : Spelling} {name otherName : Option String}
    (names : Option.Rel spelling.spelled name otherName)
    (spelled : spelling.spelled text other) :
    spelling.spelled ((name.filter (!·.isEmpty)).getD text)
      ((otherName.filter (!·.isEmpty)).getD other) := by
  cases names with
  | none => exact spelled
  | some named =>
    rw [Option.filter_some, Option.filter_some, isEmpty_eq named]
    split
    · exact named
    · exact spelled

variable (presents : simplifier.Presents edition)

include presents

/-- The default rules clean related texts alike. -/
theorem followed_clean
    (spelled : edition.revision.spelling.spelled text other) :
    Session.Followed edition links (fun _ => edition.revision.spelling.spelled)
      (simplifier.clean text) (simplifier.clean other) := by
  have cleaned := presents.cleans spelled
  unfold clean
  revert cleaned
  generalize simplifier.cleaner.clean text = outcome
  generalize simplifier.cleaner.clean other = answer
  intro cleaned
  cases cleaned with
  | error fault => exact Session.followed_fail _
  | ok spelled => exact Session.followed_pure spelled

theorem followed_nameOf {type twin : TypeTerm}
    (related : Alike edition.revision links type twin)
    (spelled : edition.revision.spelling.spelled text other) :
    Session.Followed edition links (fun _ => Shape.Spelled edition.revision.spelling)
      (simplifier.nameOf type text) (simplifier.nameOf twin other) := by
  refine (followed_symbolOf presents.faithful related).bind
    fun more below name otherName names => ?_
  exact (followed_clean presents (spelled_shownName names spelled)).map fun _ _ _ _ => .reference

omit presents in
theorem followed_functionShape {signature twin : Signature TypeTerm}
    (faithful : edition.Faithful)
    (shrinks : ∀ type, Shrinks (simplify type))
    (shows : ShowAlike edition links simplify otherSimplify)
    (related : AlikeSignature edition.revision links signature twin) :
    Followed edition links (Shape.Spelled edition.revision.spelling)
      (functionShape simplify signature) (functionShape otherSimplify twin) := by
  refine followed_after (followed_shownParameters faithful related)
    fun more below types others shown => ?_
  refine (followed_eachNamed shrinks (shows.mono below) shown).bind
    (fun _ => (shrinks _).bind fun _ => shrinks_pure) fun most further _ _ shapes => ?_
  obtain ⟨_, returns⟩ := related
  exact ((shows.mono (below.trans further)).here (returns.mono (below.trans further))).map
    fun _ _ => .function shapes

/-- Related objects have related shapes if their properties do. -/
theorem followed_objectShape {type typeTwin target targetTwin : TypeTerm}
    (shrinks : ∀ type, Shrinks (simplify type))
    (shows : ShowAlike edition links simplify otherSimplify)
    (related : Alike edition.revision links type typeTwin)
    (targetRelated : Alike edition.revision links target targetTwin) :
    Followed edition links (Shape.Spelled edition.revision.spelling)
      (simplifier.objectShape levels simplify type target)
      (simplifier.objectShape levels otherSimplify typeTwin targetTwin) := by
  refine followed_after (followed_propertiesOf presents.faithful targetRelated) ?_
  intro more below properties others propertiesRelated
  rw [propertiesRelated.isEmpty_eq]
  split
  · exact followed_pure (.object .nil)
  · refine followed_after (followed_symbolOf presents.faithful (related.mono below)) ?_
    intro most further name otherName names
    have shown := spelled_shownName names (@Spelling.own edition.revision.spelling "" (by decide))
    dsimp only
    rw [propertiesRelated.length_eq, isEmpty_eq shown]
    split
    · exact followed_pure (.reference shown)
    · have listed := firstOf_related propertiesRelated simplifier.settings.maxProperties
      exact (followed_eachNamed shrinks (shows.mono (below.trans further))
        (labelled_related (properties_mono further listed))).map fun _ _ => .object

/-- Related types are expanded to related shapes if their parts are. -/
theorem followed_expand {simplifySignature otherSignature : Signature TypeTerm → Expansion Shape}
    {type typeTwin target targetTwin : TypeTerm} (shrinks : ∀ type, Shrinks (simplify type))
    (shows : ShowAlike edition links simplify otherSimplify)
    (showsSignature : ShowSignatureAlike edition links simplifySignature otherSignature)
    (related : Alike edition.revision links type typeTwin)
    (targetRelated : Alike edition.revision links target targetTwin) :
    Followed edition links (Shape.Spelled edition.revision.spelling)
      (simplifier.expand levels simplify simplifySignature type target)
      (simplifier.expand levels otherSimplify otherSignature typeTwin targetTwin) := by
  have spelled := TypeTerm.text_spelled targetRelated
  have verbatim : Followed edition links (Shape.Spelled edition.revision.spelling)
      (do return Shape.verbatim (← simplifier.clean target.text))
      (do return Shape.verbatim (← simplifier.clean targetTwin.text)) :=
    (followed_lift (followed_clean presents spelled)).map fun _ _ => .verbatim
  cases targetRelated with
  | primitive => exact followed_pure (.primitive spelled)
  | literal => exact followed_pure (.literal spelled)
  | array element => exact (shows.here element).map fun _ _ => .array
  | tuple elements => exact (followed_each shrinks shows elements).map fun _ _ => .tuple
  | union members => exact (followed_each shrinks shows members).map fun _ _ => .union
  | intersection members =>
    exact (followed_each shrinks shows members).map fun _ _ => .intersection
  | object linked source code name =>
    exact followed_objectShape presents shrinks shows related (.object linked source code name)
  | verbatim => exact verbatim
  | reference => exact verbatim
  | function signatures =>
    cases signatures with
    | nil => exact verbatim
    | cons head _ => exact showsSignature links (.refl links) _ _ head

/-! ## All levels -/

/-- The shape of a type depends on what its cells hold and on nothing else that a session holds. -/
theorem followed_shapeAt (levels : Nat) {visited others : List String}
    (inside : Listwise edition.revision.spelling.spelled visited others) :
    (∀ links, ShowAlike edition links (simplifier.shapeAt levels visited)
        (simplifier.shapeAt levels others)) ∧
      ∀ links, ShowSignatureAlike edition links (simplifier.signatureAt levels visited)
        (simplifier.signatureAt levels others) := by
  induction levels generalizing visited others with
  | zero =>
    have cut : Shape.Spelled edition.revision.spelling .cut .cut :=
      .reference (edition.revision.spelling.own (by decide))
    exact ⟨fun _ _ _ _ _ _ => followed_pure cut, fun _ _ _ _ _ _ => followed_pure cut⟩
  | succ levels ih =>
    have shrinks := simplifier.shrinks_shapeAt levels
    refine ⟨fun links more below type twin related => ?_,
      fun links more below signature twin related =>
        followed_functionShape presents.faithful (shrinks.1 visited) ((ih inside).1 more) related⟩
    have spelled := TypeTerm.text_spelled related
    obtain ⟨types, signatures⟩ := ih (.cons spelled inside)
    unfold shapeAt
    dsimp only
    rw [contains_eq inside spelled, contains_own spelled (show primitiveNames ⊆ ownTexts by decide),
      contains_own spelled (show builtinNames ⊆ ownTexts by decide),
      edition.revision.spelling.isLiteralText spelled]
    split
    · exact followed_lift (followed_nameOf presents related spelled)
    split
    · exact followed_pure (.primitive spelled)
    split
    · exact followed_pure (.literal spelled)
    refine followed_spend.bind (fun granted => ?_) ?_
    · split
      · exact Shrinks.after_lift fun target =>
          shrinks_expand (shrinks.1 _) (shrinks.2 _) type target
      · exact shrinks_lift _
    rintro most further granted _ rfl
    have stillRelated := related.mono further
    split
    · refine followed_after (followed_structureOf presents.faithful stillRelated) ?_
      intro last beyond target targetTwin targetRelated
      exact followed_expand presents (shrinks.1 _) (types _) (signatures _)
        (stillRelated.mono beyond) targetRelated
    · exact followed_lift (followed_nameOf presents stillRelated spelled)

end Parts

/-- Types that are alike in one file tree are shown as the same. -/
theorem showAlike_same {tree : FileTree} {root : Path} (simplifier : Simplifier) (levels : Nat)
    (visited : List String) (links : Links) :
    ShowAlike (.same tree root) links (simplifier.shapeAt levels visited)
      (simplifier.shapeAt levels visited) :=
  (followed_shapeAt (simplifier.presents_same tree root) levels (.refl fun _ _ => rfl)).1 links

end Simplifier
end ModuleAtlas
