import ModuleAtlas.Proofs.Shape.Tightened

/-!
# More expansions

A run with fewer expansions goes the same way as one with more until an expansion is refused to it.
From then on it expands nothing: whatever is still to be shown has been found out before, and it is
shown by name unless it is shown without an expansion.  What the other run finds out meanwhile, and
what it has left, is no matter of the shape.

Finding a name needs nothing but the type itself, unless that is a reference without a name; such a
reference is followed for one.  Nothing else can stop the run, and only where the other run has
followed the same reference to its end.
-/

namespace ModuleAtlas

open ModuleAtlas.Types Session

/-- What a type stands for is recalled, if it takes that to find its name. -/
def Charted (tree : FileTree) (known : Session) (type : TypeTerm) : Prop :=
  type.IsUnnamed → ∃ target, Recalls tree known (structureOf type) target

namespace Expansion

variable {tree : FileTree} {root : Path} {links : Links} {shows : Prop}
  {cause : Session → Failure → Journal Session → Prop} {α β γ : Type}

/-- What stops a run next to a session stops it next to every session that knows more. -/
def Lasting (cause : Session → Failure → Journal Session → Prop) : Prop :=
  ∀ known grown failure last, cause known failure last → Grows known grown →
    cause grown failure last

/-- How a run ends that was refused an expansion, next to a run that answers a value and leaves a
session behind: it shows what is related to the value, if it shows anything then, or it is stopped
by a cause. -/
inductive Trails (shows : Prop) (cause : Session → Failure → Journal Session → Prop)
    (relation : α → α → Prop) (known : Session) :
    Except Failure (α × Nat) × Journal Session → α → Prop where
  | shown {other value : α} {last : Journal Session} (allowed : shows)
      (related : relation other value) :
      Trails shows cause relation known (.ok (other, 0), last) value
  | stopped {value : α} {failure : Failure} {last : Journal Session}
      (blamed : cause known failure last) :
      Trails shows cause relation known (.error failure, last) value

/-- Without expansions left, and from whatever session, the first expansion trails whatever the
second one answers. -/
def Starves (tree : FileTree) (root : Path) (links : Links) (shows : Prop)
    (cause : Session → Failure → Journal Session → Prop) (relation : α → α → Prop)
    (expansion other : Expansion α) : Prop :=
  ∀ before start value left after journal, Matches (.same tree root) links start.state start.state →
    other before tree start = (.ok (value, left), after) →
    Trails shows cause relation after.state (expansion 0 tree journal) value

/-- From the same session, and with fewer expansions left, the first expansion answers what the
second one answers, or it trails it. -/
def Lags (tree : FileTree) (root : Path) (links : Links) (shows : Prop)
    (cause : Session → Failure → Journal Session → Prop) (relation : α → α → Prop)
    (expansion other : Expansion α) : Prop :=
  ∀ before spare journal value left after,
      Matches (.same tree root) links journal.state journal.state →
    other (before + spare) tree journal = (.ok (value, left), after) →
    (∃ kept, left = kept + spare ∧ expansion before tree journal = (.ok (value, kept), after)) ∨
      Trails shows cause relation after.state (expansion before tree journal) value

variable {relation : α → α → Prop} {further : β → β → Prop} {expansion other : Expansion α}
  {next otherNext : α → Expansion β}

theorem trails_fail {failure : Failure} {known : Session} {before : Nat}
    {journal : Journal Session} {value : α} :
    Trails shows (fun _ found _ => found = failure) relation known
      ((liftM (Task.fail failure : Task Session α) : Expansion α) before tree journal) value := by
  change Trails shows _ relation known (.error failure, journal) value
  exact .stopped rfl

theorem starves_pure (allowed : shows) {value found : α} (related : relation found value) :
    Starves tree root links shows cause relation (pure found) (pure value) := by
  intro before start answer left after journal standing ran
  cases ran
  exact .shown allowed related

theorem lags_pure (value : α) :
    Lags tree root links shows cause relation (pure value) (pure value) := by
  intro before spare journal found left after standing ran
  cases ran
  exact .inl ⟨before, rfl, rfl⟩

theorem lags_lift (task : Task Session α) :
    Lags tree root links shows cause relation (liftM task) (liftM task) := by
  intro before spare journal value left after standing ran
  obtain ⟨rfl, answered⟩ := lift_returns ran
  exact .inl ⟨before, rfl, lift_of_returns answered before⟩

/-- An expansion after a task. -/
theorem lags_after {held : Links → γ → γ → Prop} {task : Task Session γ}
    {next otherNext : γ → Expansion β}
    (followed : Session.Followed (.same tree root) links held task task)
    (goesOn : ∀ more, links.Below more → ∀ value, held more value value →
      Lags tree root more shows cause further (next value) (otherNext value)) :
    Lags tree root links shows cause further (liftM task >>= next) (liftM task >>= otherNext) := by
  intro before spare journal answer left after standing ran
  obtain ⟨value, between, middle, started, finished⟩ := bind_returns ran
  obtain ⟨rfl, answered⟩ := lift_returns started
  obtain ⟨more, below, matched, holds⟩ := followed.itself standing answered
  rw [bind_of_returns (lift_of_returns answered before)]
  exact goesOn more below value holds before spare middle answer left after matched finished

section Lasting

variable (lasting : Lasting cause)

include lasting

/-- A run that trails goes on to one that does. -/
theorem trails_bind {known grown : Session} {before : Nat} {journal : Journal Session} {value : α}
    {answer : β}
    (trails : Trails shows cause relation known (expansion before tree journal) value)
    (grows : Grows known grown)
    (goesOn : shows → ∀ found, relation found value → ∀ last,
      Trails shows cause further grown (next found 0 tree last) answer) :
    Trails shows cause further grown ((expansion >>= next) before tree journal) answer := by
  cases ran : expansion before tree journal with
  | mk outcome last =>
    rw [ran] at trails
    cases trails with
    | shown allowed related =>
      rw [bind_of_returns ran]
      exact goesOn allowed _ related last
    | @stopped _ failure _ blamed =>
      rw [bind_of_fails ran]
      exact .stopped (lasting known grown failure last blamed grows)

/-- Without expansions left, what trails goes on to what trails. -/
theorem Starves.bind (starves : Starves tree root links shows cause relation expansion other)
    (steadfast : Steadfast tree root links other)
    (goesOn : ∀ more, links.Below more → ∀ value, Steadfast tree root more (otherNext value) ∧
      ∀ found, relation found value →
        Starves tree root more shows cause further (next found) (otherNext value)) :
    Starves tree root links shows cause further (expansion >>= next) (other >>= otherNext) := by
  intro before start answer left after journal standing ran
  obtain ⟨value, between, middle, started, finished⟩ := bind_returns ran
  obtain ⟨more, below, matched⟩ := steadfast.followed.itself standing started
  obtain ⟨nextSteadfast, starvesNext⟩ := goesOn more below value
  have grows := (nextSteadfast.retains between).grows finished
  refine trails_bind lasting (starves _ _ _ _ _ journal standing started) grows ?_
  exact fun _ found related last => starvesNext found related _ _ _ _ _ last matched finished

theorem Starves.map {image otherImage : α → β}
    (starves : Starves tree root links shows cause relation expansion other) (allowed : shows)
    (steadfast : Steadfast tree root links other)
    (implied : ∀ found value, relation found value → further (image found) (otherImage value)) :
    Starves tree root links shows cause further (do return image (← expansion))
      (do return otherImage (← other)) :=
  starves.bind lasting steadfast fun _ _ value =>
    ⟨steadfast_pure _, fun found related => starves_pure allowed (implied found value related)⟩

/-- With fewer expansions, what lags goes on to what lags, or to what starves. -/
theorem Lags.bind (lags : Lags tree root links shows cause relation expansion other)
    (steadfast : Steadfast tree root links other)
    (goesOn : ∀ more, links.Below more → ∀ value, Steadfast tree root more (otherNext value) ∧
      Lags tree root more shows cause further (next value) (otherNext value) ∧
      (shows → ∀ found, relation found value →
        Starves tree root more shows cause further (next found) (otherNext value))) :
    Lags tree root links shows cause further (expansion >>= next) (other >>= otherNext) := by
  intro before spare journal answer left after standing ran
  obtain ⟨value, between, middle, started, finished⟩ := bind_returns ran
  obtain ⟨more, below, matched⟩ := steadfast.followed.itself standing started
  obtain ⟨nextSteadfast, lagsNext, starvesNext⟩ := goesOn more below value
  rcases lags before spare journal value between middle standing started with
    ⟨kept, rfl, same⟩ | trails
  · rw [bind_of_returns same]
    exact lagsNext kept spare middle answer left after matched finished
  · have grows := (nextSteadfast.retains between).grows finished
    refine .inr (trails_bind lasting trails grows fun allowed found related last => ?_)
    exact starvesNext allowed found related _ _ _ _ _ last matched finished

theorem Lags.map {image : α → β}
    (lags : Lags tree root links shows cause relation expansion other)
    (steadfast : Steadfast tree root links other)
    (implied : ∀ found value, relation found value → further (image found) (image value)) :
    Lags tree root links shows cause further (do return image (← expansion))
      (do return image (← other)) :=
  lags.bind lasting steadfast fun _ _ value => ⟨steadfast_pure _, lags_pure _,
    fun allowed found related => starves_pure allowed (implied found value related)⟩

end Lasting

end Expansion

namespace Simplifier

open Expansion

/-! ## What is shown when an expansion is refused -/

mutual

/-- The shape of a type, with a function for what is shown of a type that may not be expanded. -/
def shapeWith (simplifier : Simplifier) (refused : TypeTerm → String → Expansion Shape) :
    Nat → List String → TypeTerm → Expansion Shape
  | 0, _, _ => return .cut
  | levels + 1, visited, type => do
    let text := type.text
    let isNested := decide (0 < simplifier.depth (levels + 1))
    if isNested && visited.contains text then simplifier.nameOf type text
    else if primitiveNames.contains text || builtinNames.contains text then
      return .primitive text
    else if Shape.isLiteralText text then return .literal text
    else if ← Expansion.spend then
      simplifier.expand (levels + 1) (shapeWith simplifier refused levels (text :: visited))
        (signatureWith simplifier refused levels (text :: visited)) type (← structureOf type)
    else refused type text

/-- The shape of a signature, with a function for what is shown of a type that may not be expanded.
-/
def signatureWith (simplifier : Simplifier) (refused : TypeTerm → String → Expansion Shape) :
    Nat → List String → Signature TypeTerm → Expansion Shape
  | 0, _, _ => return .cut
  | levels + 1, visited, signature =>
    functionShape (shapeWith simplifier refused levels visited) signature

end

variable {tree : FileTree} {root : Path} {links : Links} {shows : Prop}
  {cause : Session → Failure → Journal Session → Prop} {simplifier : Simplifier} {levels : Nat}
  {simplify other : TypeTerm → Expansion Shape} {visited : List String}

/-! ## Names -/

section Names

variable {type : TypeTerm} {journal after : Journal Session}

/-- A name was found, so the reference without one has been followed. -/
theorem charted_of_symbolOf {symbol : Option String}
    (standing : Matches (.same tree root) links journal.state journal.state)
    (related : Alike .same links type type)
    (ran : symbolOf type tree journal = (.ok symbol, after)) :
    Charted tree after.state type := by
  intro unnamed
  rw [symbolOf_of_unnamed unnamed] at ran
  obtain ⟨target, middle, structured, named⟩ := Task.exists_of_bind_eq_ok ran
  obtain ⟨own, answered⟩ : ∃ own, ownName target tree middle = (.ok own, middle) :=
    ownName_returns target middle
  rw [answered] at named
  cases named
  exact ⟨target, (remembered_structureOf related journal target _ standing structured).recalls⟩

/-- A type that was named has been followed if it has no name of its own. -/
theorem charted_of_nameOf {shape : Shape} {text : String}
    (standing : Matches (.same tree root) links journal.state journal.state)
    (related : Alike .same links type type)
    (ran : simplifier.nameOf type text tree journal = (.ok shape, after)) :
    Charted tree after.state type := by
  obtain ⟨symbol, middle, named, shown⟩ := Task.exists_of_bind_eq_ok ran
  obtain ⟨cleaned, last, clean, answered⟩ := Task.exists_of_bind_eq_ok shown
  have usable := usable_of_clean clean
  obtain ⟨_, same⟩ := clean_of_usable usable ((symbol.filter fun name => !name.isEmpty).getD text)
  rw [same] at clean
  cases clean
  cases answered
  exact charted_of_symbolOf standing related named

end Names

/-! ## Parts -/

section Parts

variable (lasting : Lasting cause) (shown : Shows tree root other)
  (starves : shows → ∀ links type, Alike .same links type type →
    Starves tree root links shows cause (Shape.Abridges False) (simplify type) (other type))

include lasting shown starves

theorem starves_each (allowed : shows) {types : List TypeTerm}
    (related : Listwise (Alike .same links) types types) :
    Starves tree root links shows cause (Listwise (Shape.Abridges False)) (each simplify types)
      (each other types) := by
  induction types generalizing links with
  | nil => exact starves_pure allowed .nil
  | cons type rest ih =>
    cases related with
    | cons head tail =>
      refine (starves allowed links type head).bind lasting (shown.steadfast head) ?_
      intro more below shape
      have later := alikes_mono below tail
      have steadfast : Steadfast tree root more (each other rest) := shown.steadfast_each later
      exact ⟨steadfast.map _, fun found abridges =>
        (ih later).map lasting allowed steadfast fun _ _ others => .cons abridges others⟩

theorem starves_eachNamed (allowed : shows) {types : List (String × TypeTerm)}
    (related : AlikeNamed .same links types types) :
    Starves tree root links shows cause (Listwise (Named (Shape.Abridges False)))
      (eachNamed simplify types) (eachNamed other types) := by
  induction types generalizing links with
  | nil => exact starves_pure allowed .nil
  | cons named rest ih =>
    cases related with
    | cons head tail =>
      obtain ⟨alike⟩ := head
      refine (starves allowed links _ alike).bind lasting (shown.steadfast alike) ?_
      intro more below shape
      have later := named_mono below tail
      have steadfast : Steadfast tree root more (eachNamed other rest) :=
        shown.steadfast_eachNamed later
      exact ⟨steadfast.map _, fun found abridges =>
        (ih later).map lasting allowed steadfast fun _ _ others => .cons ⟨abridges⟩ others⟩

variable (lags : ∀ links type, Alike .same links type type →
  Lags tree root links shows cause (Shape.Abridges False) (simplify type) (other type))

include lags

theorem lags_each {types : List TypeTerm} (related : Listwise (Alike .same links) types types) :
    Lags tree root links shows cause (Listwise (Shape.Abridges False)) (each simplify types)
      (each other types) := by
  induction types generalizing links with
  | nil => exact lags_pure []
  | cons type rest ih =>
    cases related with
    | cons head tail =>
      refine (lags links type head).bind lasting (shown.steadfast head) fun more below shape => ?_
      have later := alikes_mono below tail
      have steadfast : Steadfast tree root more (each other rest) := shown.steadfast_each later
      refine ⟨steadfast.map _, ?_, fun allowed found abridges => ?_⟩
      · exact (ih later).map lasting steadfast fun _ _ => .cons (Shape.abridges_refl shape)
      · exact (starves_each lasting shown starves allowed later).map lasting allowed steadfast
          fun _ _ others => .cons abridges others

theorem lags_eachNamed {types : List (String × TypeTerm)}
    (related : AlikeNamed .same links types types) :
    Lags tree root links shows cause (Listwise (Named (Shape.Abridges False)))
      (eachNamed simplify types) (eachNamed other types) := by
  induction types generalizing links with
  | nil => exact lags_pure []
  | cons named rest ih =>
    cases related with
    | cons head tail =>
      obtain ⟨alike⟩ := head
      refine (lags links _ alike).bind lasting (shown.steadfast alike) fun more below shape => ?_
      have later := named_mono below tail
      have steadfast : Steadfast tree root more (eachNamed other rest) :=
        shown.steadfast_eachNamed later
      refine ⟨steadfast.map _, ?_, fun allowed found abridges => ?_⟩
      · exact (ih later).map lasting steadfast fun _ _ => .cons ⟨Shape.abridges_refl shape⟩
      · exact (starves_eachNamed lasting shown starves allowed later).map lasting allowed steadfast
          fun _ _ others => .cons ⟨abridges⟩ others

/-! ## One level -/

theorem lags_functionShape {signature : Signature TypeTerm}
    (related : AlikeSignature .same links signature signature) :
    Lags tree root links shows cause (Shape.Abridges False) (functionShape simplify signature)
      (functionShape other signature) := by
  refine lags_after
    (followed_shownParameters (Edition.faithful_same tree root) related)
      fun more below parameters alike => ?_
  obtain ⟨_, returns⟩ := related
  refine (lags_eachNamed lasting shown starves lags alike).bind lasting
    (shown.steadfast_eachNamed alike) fun most further shapes => ?_
  have returnsAlike := returns.mono (below.trans further)
  have steadfast := shown.steadfast returnsAlike
  refine ⟨steadfast.map _, ?_, fun allowed found abridges => ?_⟩
  · exact (lags most _ returnsAlike).map lasting steadfast
      fun _ _ => .function (Shape.abridgeNamed_refl shapes)
  · exact (starves allowed most _ returnsAlike).map lasting allowed steadfast
      fun _ _ => .function abridges

/-- An object lags if its properties do. -/
theorem lags_objectShape {type target : TypeTerm} (related : Alike .same links type type)
    (targetRelated : Alike .same links target target) :
    Lags tree root links shows cause (Shape.Abridges False)
      (simplifier.objectShape levels simplify type target)
      (simplifier.objectShape levels other type target) := by
  refine lags_after
    (followed_propertiesOf (Edition.faithful_same tree root) targetRelated)
      fun more below properties alike => ?_
  split
  · exact lags_pure _
  · refine lags_after
      (followed_symbolOf (Edition.faithful_same tree root) (related.mono below))
        fun most further name _ => ?_
    dsimp only
    split
    · exact lags_pure _
    · have labelled := labelled_related
        (firstOf_related (properties_mono further alike) simplifier.settings.maxProperties)
      exact (lags_eachNamed lasting shown starves lags labelled).map lasting
        (shown.steadfast_eachNamed labelled) fun _ _ => .object

/-- Expanding a type lags if its parts do. -/
theorem lags_expand {simplifySignature otherSignature : Signature TypeTerm → Expansion Shape}
    (lagsSignature : ∀ signature, AlikeSignature .same links signature signature →
      Lags tree root links shows cause (Shape.Abridges False) (simplifySignature signature)
        (otherSignature signature))
    {type target : TypeTerm} (related : Alike .same links type type)
    (targetRelated : Alike .same links target target) :
    Lags tree root links shows cause (Shape.Abridges False)
      (simplifier.expand levels simplify simplifySignature type target)
      (simplifier.expand levels other otherSignature type target) := by
  have verbatim : ∀ text, Lags tree root links shows cause (Shape.Abridges False)
      (do return Shape.verbatim (← simplifier.clean text))
      (do return Shape.verbatim (← simplifier.clean text)) :=
    fun text => lags_after
      (followed_clean (simplifier.presents_same tree root) (@rfl _ text)) fun _ _ _ _ => lags_pure _
  cases targetRelated with
  | primitive => exact lags_pure _
  | literal => exact lags_pure _
  | verbatim => exact verbatim _
  | array element =>
    exact (lags links _ element).map lasting (shown.steadfast element) fun _ _ => .array
  | tuple elements =>
    exact (lags_each lasting shown starves lags elements).map lasting
      (shown.steadfast_each elements) fun _ _ => .tuple
  | union members =>
    exact (lags_each lasting shown starves lags members).map lasting (shown.steadfast_each members)
      fun _ _ => .union
  | intersection members =>
    exact (lags_each lasting shown starves lags members).map lasting (shown.steadfast_each members)
      fun _ _ => .intersection
  | object linked source code name =>
    exact lags_objectShape lasting shown starves lags related (.object linked source code name)
  | reference => exact verbatim _
  | function listed =>
    cases listed with
    | nil => exact verbatim _
    | cons signature _ => exact lagsSignature _ signature

end Parts

/-! ## All levels -/

section Levels

variable {refused : TypeTerm → String → Expansion Shape} {type : TypeTerm}

/-- A run that expands a type, or else shows its name, has found out what its name takes. -/
theorem charted_of_expanded {before left : Nat} {journal after : Journal Session} {shape : Shape}
    (standing : Matches (.same tree root) links journal.state journal.state)
    (related : Alike .same links type type)
    (ran : (do
      if ← spend then
        simplifier.expand (levels + 1) (simplifier.shapeAt levels visited)
          (simplifier.signatureAt levels visited) type (← structureOf type)
      else simplifier.nameOf type type.text : Expansion Shape) before tree journal =
        (.ok (shape, left), after)) :
    Charted tree after.state type := by
  cases before with
  | zero => exact charted_of_nameOf standing related (lift_returns ran).2
  | succ before =>
    have expanded : (liftM (structureOf type) >>= fun target => simplifier.expand (levels + 1)
        (simplifier.shapeAt levels visited) (simplifier.signatureAt levels visited) type target)
        before tree journal = (.ok (shape, left), after) := ran
    obtain ⟨target, _, middle, started, finished⟩ := bind_returns expanded
    obtain ⟨rfl, structured⟩ := lift_returns started
    obtain ⟨types, signatures⟩ := throughout_shapeAt closed_retains simplifier levels
    have grows := (throughout_expand closed_retains (types visited) (signatures visited) type target
      _).grows finished
    have leaves := remembered_structureOf related journal target middle standing structured
    exact fun _ => ⟨target, leaves.recalls.later grows⟩

/-- A type that cannot be expanded any more is shown as it is shown with more expansions, or by
name. -/
theorem starves_shapeWith (allowed : shows)
    (names : ∀ known type, Charted tree known type → ∀ text shape journal,
      Trails shows cause (Shape.Abridges False) known
        ((liftM (simplifier.nameOf type text) : Expansion Shape) 0 tree journal) shape)
    (refuses : ∀ known type, Charted tree known type → ∀ text shape journal,
      Trails shows cause (Shape.Abridges False) known (refused type text 0 tree journal) shape)
    (levels : Nat) (visited : List String) (related : Alike .same links type type) :
    Starves tree root links shows cause (Shape.Abridges False)
      (simplifier.shapeWith refused levels visited type)
      (simplifier.shapeAt levels visited type) := by
  cases levels with
  | zero => exact starves_pure allowed .named
  | succ levels =>
    unfold shapeWith shapeAt
    dsimp only
    split
    · intro before start shape left after journal standing ran
      exact names _ type (charted_of_nameOf standing related (lift_returns ran).2) _ shape journal
    split
    · exact starves_pure allowed .primitive
    split
    · exact starves_pure allowed .literal
    intro before start shape left after journal standing ran
    exact refuses _ type (charted_of_expanded standing related ran) _ shape journal

/-- A type is shown as it is shown with more expansions, up to the first one that is refused. -/
theorem lags_shapeWith (lasting : Lasting cause)
    (names : shows → ∀ known type, Charted tree known type → ∀ text shape journal,
      Trails shows cause (Shape.Abridges False) known
        ((liftM (simplifier.nameOf type text) : Expansion Shape) 0 tree journal) shape)
    (refuses : ∀ known type, Charted tree known type → ∀ text shape journal,
      Trails shows cause (Shape.Abridges False) known (refused type text 0 tree journal) shape)
    (levels : Nat) :
    (∀ visited links type, Alike .same links type type →
      Lags tree root links shows cause (Shape.Abridges False)
        (simplifier.shapeWith refused levels visited type)
        (simplifier.shapeAt levels visited type)) ∧
    ∀ visited links signature, AlikeSignature .same links signature signature →
      Lags tree root links shows cause (Shape.Abridges False)
        (simplifier.signatureWith refused levels visited signature)
        (simplifier.signatureAt levels visited signature) := by
  induction levels with
  | zero => exact ⟨fun _ _ _ _ => lags_pure _, fun _ _ _ _ => lags_pure _⟩
  | succ levels ih =>
    obtain ⟨types, signatures⟩ := ih
    have starves : ∀ (visited : List String), shows → ∀ (links : Links) (type : TypeTerm),
        Alike .same links type type → Starves tree root links shows cause (Shape.Abridges False)
          (simplifier.shapeWith refused levels visited type)
          (simplifier.shapeAt levels visited type) :=
      fun visited allowed _ _ related =>
        starves_shapeWith allowed (names allowed) refuses levels visited related
    refine ⟨fun visited links type related => ?_, fun visited links signature related =>
      lags_functionShape lasting (shows_shapeAt simplifier levels visited) (starves visited)
        (types visited) related⟩
    unfold shapeWith shapeAt
    dsimp only
    split
    · exact lags_lift _
    split
    · exact lags_pure _
    split
    · exact lags_pure _
    intro before spare journal shape left after standing ran
    cases before with
    | zero =>
      exact .inr (refuses _ type (charted_of_expanded standing related ran) _ shape journal)
    | succ before =>
      rw [Nat.succ_add] at ran
      have expanded : Lags tree root links shows cause (Shape.Abridges False)
          (liftM (structureOf type) >>= fun target => simplifier.expand (levels + 1)
            (simplifier.shapeWith refused levels (type.text :: visited))
            (simplifier.signatureWith refused levels (type.text :: visited)) type target)
          (liftM (structureOf type) >>= fun target => simplifier.expand (levels + 1)
            (simplifier.shapeAt levels (type.text :: visited))
            (simplifier.signatureAt levels (type.text :: visited)) type target) :=
        lags_after
          (followed_structureOf (Edition.faithful_same tree root) related)
            fun more below target targetRelated =>
          lags_expand lasting (shows_shapeAt simplifier levels _) (starves _) (types _)
            (signatures _ more) (related.mono below) targetRelated
      exact expanded before spare journal shape left after standing ran

end Levels

/-! ## Whole shapes -/

section Whole

variable {depth nodes more : Int} {type : TypeTerm} {journal after : Journal Session}
  {whole : Shape}

/-- No expansion is refused in a run: what would come of a refusal does not matter to it. -/
def Unrefused (simplifier : Simplifier) (depth : Int) (visited : List String) (type : TypeTerm)
    (tree : FileTree) (journal : Journal Session) : Prop :=
  ∀ refused, simplifier.shapeWith refused (simplifier.levelsAt depth) visited type
      simplifier.expansions tree journal =
    simplifier.shapeAt (simplifier.levelsAt depth) visited type simplifier.expansions tree journal

/-- A run to which no expansion is refused answers what a run with more expansions answers. -/
theorem Unrefused.answers {spare left : Nat}
    (unrefused : simplifier.Unrefused depth visited type tree journal)
    (holding : Holding tree root journal.state type)
    (ran : simplifier.shapeAt (simplifier.levelsAt depth) visited type
      (simplifier.expansions + spare) tree journal = (.ok (whole, left), after)) :
    ∃ kept, simplifier.shapeAt (simplifier.levelsAt depth) visited type simplifier.expansions tree
      journal = (.ok (whole, kept), after) := by
  obtain ⟨links, standing, related⟩ := holding
  -- If every refusal were a failure, the run would answer, or fail with any failure we like.
  have fails : ∀ failure, (∃ kept, simplifier.shapeAt (simplifier.levelsAt depth) visited type
      simplifier.expansions tree journal = (.ok (whole, kept), after)) ∨
      ∃ last, simplifier.shapeAt (simplifier.levelsAt depth) visited type
        simplifier.expansions tree journal = (.error failure, last) := by
    intro failure
    have strict : Lags tree root links False (fun _ found _ => found = failure)
        (Shape.Abridges False)
        (simplifier.shapeWith (fun _ _ => liftM (Task.fail failure : Task Session Shape))
          (simplifier.levelsAt depth) visited type)
        (simplifier.shapeAt (simplifier.levelsAt depth) visited type) :=
      (lags_shapeWith (fun _ _ _ _ same _ => same) (fun impossible => impossible.elim)
        (fun _ _ _ _ _ _ => trails_fail) _).1 _ _ _ related
    rcases strict _ _ _ _ _ _ standing ran with ⟨kept, -, same⟩ | trails
    · exact .inl ⟨kept, (unrefused _).symm.trans same⟩
    · rw [unrefused] at trails
      revert trails
      generalize simplifier.shapeAt _ visited type _ tree journal = outcome
      rintro (⟨impossible, -⟩ | rfl)
      · exact impossible.elim
      · exact .inr ⟨_, rfl⟩
  rcases fails .unnamedPath with answers | ⟨last, failed⟩
  · exact answers
  · rcases fails .exportsNotTable with answers | ⟨other, alsoFailed⟩
    · exact answers
    · rw [failed] at alsoFailed
      cases alsoFailed

end Whole

/-! ## Shapes with and without enough expansions -/

end Simplifier
end ModuleAtlas
