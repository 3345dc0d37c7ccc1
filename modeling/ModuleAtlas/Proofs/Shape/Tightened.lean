import ModuleAtlas.Proofs.Catalogue.Twins
import ModuleAtlas.Proofs.Shape.Abridged
import ModuleAtlas.Proofs.Shape.Limits
import ModuleAtlas.Proofs.Shape.Siblings
import ModuleAtlas.Proofs.Types.Recalled

/-!
# Tighter limits

Tighter limits on the depth, the number of properties and the size of named types leave parts of a
shape out and change nothing else, as long as the session knows what showing the shape with the
wider limits finds out.  Everything that a run with tighter limits asks for has then been asked for
before, at the same place, and is recalled.  From other sessions the shapes may differ: the name
that an alias gives an object type may be found in a part that the tighter limits leave out.
-/

namespace ModuleAtlas

open ModuleAtlas.Types Session

variable {tree : FileTree} {root : Path} {links : Links} {α β : Type}

namespace Expansion

/-- Expansions that never put expansions back, that leave what they hold in place and that forget
nothing. -/
structure Steadfast (tree : FileTree) (root : Path) (links : Links) (expansion : Expansion α) :
    Prop where
  shrinks : Shrinks expansion
  followed : Followed (.same tree root) links (fun _ _ => True) expansion expansion
  retains : Throughout (fun _ => Retains) expansion

theorem steadfast_pure (value : α) : Steadfast tree root links (pure value) :=
  ⟨shrinks_pure, followed_pure trivial, throughout_pure closed_retains value⟩

theorem Steadfast.map {expansion : Expansion α} (steadfast : Steadfast tree root links expansion)
    (image : α → β) :
    Steadfast tree root links (do return image (← expansion)) :=
  ⟨steadfast.shrinks.bind fun _ => shrinks_pure,
    steadfast.followed.map fun _ _ _ => trivial, steadfast.retains.map closed_retains⟩

/-- What the second expansion answers without using up the expansions left the first one answers as
well, up to a relation, from every session that knows at least as much as the second one leaves
behind. It learns nothing then and takes at most as many expansions. -/
def Prunes (tree : FileTree) (root : Path) (links : Links) (relation : α → β → Prop)
    (expansion : Expansion α) (other : Expansion β) : Prop :=
  ∀ before more left journal value after later,
    Matches (.same tree root) links journal.state journal.state →
    other before tree journal = (.ok (value, left), after) → 0 < left → before ≤ more →
    Grows after.state later.state →
    ∃ found rest, expansion more tree later = (.ok (found, rest), later) ∧
      more + left ≤ before + rest ∧ relation found value

variable {relation : α → α → Prop} {further : β → β → Prop} {expansion other : Expansion α}
  {next otherNext : α → Expansion β}

theorem prunes_pure {found value : α} (related : relation found value) :
    Prunes tree root links relation (pure found) (pure value) := by
  intro before more left journal answer after later standing ran remains enough grows
  cases ran
  exact ⟨found, more, rfl, Nat.le_of_eq (Nat.add_comm more before), related⟩

/-- A value that is related to whatever is answered. -/
theorem prunes_any {found : α} (shrinks : Shrinks other) (related : ∀ value, relation found value) :
    Prunes tree root links relation (pure found) other := by
  intro before more left journal value after later standing ran remains enough grows
  have fewer : left ≤ before := shrinks tree journal before value left after ran
  exact ⟨found, more, rfl, by omega, related value⟩

/-- What prunes goes on to what prunes. -/
theorem Prunes.bind (prunes : Prunes tree root links relation expansion other)
    (steadfast : Steadfast tree root links other)
    (goesOn : ∀ more, links.Below more → ∀ value, Steadfast tree root more (otherNext value) ∧
      ∀ found, relation found value →
        Prunes tree root more further (next found) (otherNext value)) :
    Prunes tree root links further (expansion >>= next) (other >>= otherNext) := by
  intro before more left journal answer after later standing ran remains enough grows
  obtain ⟨value, between, middle, started, finished⟩ := bind_returns ran
  obtain ⟨wider, below, matched⟩ := steadfast.followed.itself standing started
  obtain ⟨nextSteadfast, nextPrunes⟩ := goesOn wider below value
  have fewer : left ≤ between :=
    nextSteadfast.shrinks tree middle between answer left after finished
  have growsOn : Grows middle.state after.state := (nextSteadfast.retains between).grows finished
  obtain ⟨found, rest, ranFirst, spentFirst, related⟩ :=
    prunes before more between journal value middle later standing started
      (Nat.lt_of_lt_of_le remains fewer) enough (growsOn.trans grows)
  obtain ⟨last, kept, ranNext, spentNext, lastRelated⟩ :=
    nextPrunes found related between rest left middle answer after later matched finished remains
      (by omega) grows
  exact ⟨last, kept, (bind_of_returns ranFirst).trans ranNext, by omega, lastRelated⟩

/-- What a task answers it goes on to answer, up to a relation, and then it learns nothing. -/
def Lasts (tree : FileTree) (root : Path) (links : Links) (held : Links → α → α → Prop)
    (relation : α → α → Prop) (task : Task Session α) : Prop :=
  ∀ journal value after, Matches (.same tree root) links journal.state journal.state →
    task tree journal = (.ok value, after) →
    (∃ more, links.Below more ∧ Matches (.same tree root) more after.state after.state ∧
      held more value value) ∧
    ∀ later, Grows after.state later.state →
      ∃ found, task tree later = (.ok found, later) ∧ relation found value

variable {held : Links → α → α → Prop} {task : Task Session α}

theorem lasts_of_remembered (remembered : Remembered tree root links held task) :
    Lasts tree root links held Eq task := by
  intro journal value after standing ran
  obtain ⟨_, recalls, holds⟩ := remembered journal value after standing ran
  exact ⟨holds, fun later grows => ⟨value, recalls later grows, rfl⟩⟩

/-- An expansion after a task whose answer lasts. -/
theorem prunes_after (lasts : Lasts tree root links held relation task)
    (goesOn : ∀ more, links.Below more → ∀ value, held more value value →
      Throughout (fun _ => Retains) (otherNext value) ∧
        ∀ found, relation found value →
          Prunes tree root more further (next found) (otherNext value)) :
    Prunes tree root links further (liftM task >>= next) (liftM task >>= otherNext) := by
  intro before more left journal answer after later standing ran remains enough grows
  obtain ⟨value, between, middle, started, finished⟩ := bind_returns ran
  obtain ⟨rfl, answered⟩ := lift_returns started
  obtain ⟨⟨wider, below, matched, holds⟩, again⟩ := lasts journal value middle standing answered
  obtain ⟨retains, prunes⟩ := goesOn wider below value holds
  have growsOn : Grows middle.state after.state := (retains between).grows finished
  obtain ⟨recalled, recalls, related⟩ := again later (growsOn.trans grows)
  obtain ⟨found, rest, ranNext, spent, nextRelated⟩ :=
    prunes recalled related between more left middle answer after later matched finished remains
      enough grows
  exact ⟨found, rest, (bind_of_returns (lift_of_returns recalls more)).trans ranNext, spent,
    nextRelated⟩

theorem prunes_lift (lasts : Lasts tree root links held relation task) :
    Prunes tree root links relation (liftM task) (liftM task) := by
  intro before more left journal value after later standing ran remains enough grows
  obtain ⟨rfl, answered⟩ := lift_returns ran
  obtain ⟨_, again⟩ := lasts journal value after standing answered
  obtain ⟨found, recalls, related⟩ := again later grows
  exact ⟨found, more, lift_of_returns recalls more, Nat.le_of_eq (Nat.add_comm _ _), related⟩

/-- Where the second expansion does not use up the expansions left, it is not refused one. -/
theorem prunes_spend {granted refused otherGranted otherRefused : Expansion α}
    (prunes : Prunes tree root links relation granted otherGranted)
    (shrinks : Shrinks otherRefused) :
    Prunes tree root links relation (do if ← spend then granted else refused)
      (do if ← spend then otherGranted else otherRefused) := by
  intro before more left journal value after later standing ran remains enough grows
  cases before with
  | zero =>
    have none : left ≤ 0 := shrinks tree journal 0 value left after ran
    omega
  | succ before =>
    obtain ⟨more, rfl⟩ := Nat.exists_eq_add_of_lt enough
    have started : otherGranted before tree journal = (.ok (value, left), after) := ran
    obtain ⟨found, rest, ranTight, spent, related⟩ := prunes before (before + more) left journal
      value after later standing started remains (Nat.le_add_right _ _) grows
    have spends : spend (before + more + 1) tree later = (.ok (true, before + more), later) := rfl
    exact ⟨found, rest, (bind_of_returns spends).trans ranTight, by omega, related⟩

theorem Prunes.map {image otherImage : α → β}
    (prunes : Prunes tree root links relation expansion other)
    (steadfast : Steadfast tree root links other)
    (implied : ∀ found value, relation found value → further (image found) (otherImage value)) :
    Prunes tree root links further (do return image (← expansion))
      (do return otherImage (← other)) :=
  prunes.bind steadfast fun _ _ value =>
    ⟨steadfast_pure _, fun found related => prunes_pure (implied found value related)⟩

end Expansion

namespace Simplifier

open Expansion

/-- Shapes of types that are alike are the same, and showing them forgets nothing. -/
structure Shows (tree : FileTree) (root : Path) (simplify : TypeTerm → Expansion Shape) :
    Prop where
  shrinks : ∀ type, Shrinks (simplify type)
  followed : ∀ links, ShowAlike (.same tree root) links simplify simplify
  retains : ∀ type, Throughout (fun _ => Retains) (simplify type)

variable {tight wide : TypeTerm → Expansion Shape}

namespace Shows

variable (shows : Shows tree root wide)

include shows

theorem steadfast {type : TypeTerm} (related : Alike .same links type type) :
    Steadfast tree root links (wide type) :=
  ⟨shows.shrinks type, ((shows.followed links).here related).mono fun _ _ _ => trivial,
    shows.retains type⟩

theorem steadfast_each {types : List TypeTerm}
    (related : Listwise (Alike .same links) types types) :
    Steadfast tree root links (each wide types) :=
  ⟨shrinks_each shows.shrinks types,
    (followed_each shows.shrinks (shows.followed links) related).mono fun _ _ _ => trivial,
    throughout_each closed_retains shows.retains types⟩

theorem steadfast_eachNamed {types : List (String × TypeTerm)}
    (related : AlikeNamed .same links types types) :
    Steadfast tree root links (eachNamed wide types) :=
  ⟨shrinks_eachNamed shows.shrinks types,
    (followed_eachNamed shows.shrinks (shows.followed links) related).mono fun _ _ _ => trivial,
    throughout_eachNamed closed_retains shows.retains types⟩

end Shows

/-! ## What is asked for on the way -/

theorem remembered_clean (simplifier : Simplifier) (text : String) :
    Remembered tree root links (fun _ => Eq) (simplifier.clean text) := by
  unfold clean
  cases simplifier.cleaner.clean text with
  | ok cleaned => exact remembered_pure rfl
  | error fault =>
    intro journal value after standing ran
    cases ran

/-- The properties of a destructured parameter are known to a later run. -/
theorem remembered_patternProperties {parameter : Parameter TypeTerm}
    (related : AlikeParameter .same links parameter parameter) :
    Remembered tree root links (fun links => Listwise (AlikeProperty .same links))
      (patternProperties parameter) := by
  have alike : Alike .same links parameter.type parameter.type := by
    obtain ⟨alike, _⟩ := related
    exact alike
  have bound : Listwise (AlikeProperty .same links) parameter.bound parameter.bound := by
    obtain ⟨_, bound, _⟩ := related
    exact bound
  refine (remembered_isObject alike).bind fun more below isObject _ => ?_
  have finish : ∀ most, more.Below most → ∀ properties : List (Property TypeTerm),
      Listwise (AlikeProperty .same most) properties properties →
      Remembered tree root most (fun links => Listwise (AlikeProperty .same links))
        (return if properties.isEmpty then parameter.bound else properties) := by
    intro most further properties related
    split
    · exact remembered_pure (properties_mono (below.trans further) bound)
    · exact remembered_pure related
  dsimp only
  split
  · exact (remembered_propertiesOf (alike.mono below)).bind finish
  · exact finish more (.refl more) [] .nil

theorem remembered_shownParameters {signature : Signature TypeTerm}
    (related : AlikeSignature .same links signature signature) :
    Remembered tree root links (AlikeNamed .same) (shownParameters signature) := by
  obtain ⟨parameters, _⟩ := related
  have listed := listed_related parameters
  unfold shownParameters
  cases parameters with
  | nil => exact remembered_pure listed
  | cons head tail =>
    cases tail with
    | cons next rest => exact remembered_pure listed
    | nil =>
      dsimp only
      split
      · exact remembered_pure listed
      · refine (remembered_patternProperties head).bind fun more below properties shown => ?_
        obtain ⟨alike, _, _⟩ := head
        cases shown with
        | nil => exact remembered_pure (.cons ⟨alike.mono below⟩ .nil)
        | cons first rest => exact remembered_pure (labelled_related (.cons first rest))

/-! ## Names -/

section Names

variable {type : TypeTerm}

/-- The name of a type lasts, though one may be found where there was none. -/
theorem lasts_symbolOf (related : Alike .same links type type) :
    Lasts tree root links (fun _ => Option.Rel Eq)
      (fun name symbol => ∀ found, symbol = some found → name = some found) (symbolOf type) :=
  fun _ _ _ standing ran =>
    ⟨(followed_symbolOf (Edition.faithful_same tree root) related).itself standing ran,
      fun _ grows => symbolOf_later standing related ran grows⟩

/-- A type that was shown by name can be shown by name again. -/
theorem lasts_nameOf
    (related : Alike .same links type type) (simplifier : Simplifier) (text : String) :
    Lasts tree root links (fun _ => Shape.Spelled .same) (Shape.Abridges True)
      (simplifier.nameOf type text) := by
  intro journal shape after standing ran
  refine ⟨(followed_nameOf (simplifier.presents_same tree root) related rfl).itself standing ran,
    fun later grows => ?_⟩
  obtain ⟨symbol, middle, named, shown⟩ := Task.exists_of_bind_eq_ok ran
  obtain ⟨cleaned, last, clean, answered⟩ := Task.exists_of_bind_eq_ok shown
  have usable := usable_of_clean clean
  obtain ⟨_, same⟩ := clean_of_usable usable ((symbol.filter fun name => !name.isEmpty).getD text)
  rw [same] at clean
  cases clean
  cases answered
  obtain ⟨name, found, _⟩ := symbolOf_later standing related named grows
  obtain ⟨again, cleans⟩ :=
    clean_of_usable usable ((name.filter fun name => !name.isEmpty).getD text)
  refine ⟨.reference again, ?_, .named⟩
  unfold nameOf
  rw [Task.bind_of_ok found, cleans]
  rfl

end Names

/-! ## Parts -/

section Parts

variable (shows : Shows tree root wide)
  (prunes : ∀ links type, Alike .same links type type →
    Prunes tree root links (Shape.Abridges True) (tight type) (wide type))

include shows prunes

theorem prunes_each {types : List TypeTerm} (related : Listwise (Alike .same links) types types) :
    Prunes tree root links (Listwise (Shape.Abridges True)) (each tight types)
      (each wide types) := by
  induction types generalizing links with
  | nil => exact prunes_pure .nil
  | cons type rest ih =>
    cases related with
    | cons head tail =>
      refine (prunes links type head).bind (shows.steadfast head) fun more below shape => ?_
      have restRelated := alikes_mono below tail
      have steadfast : Steadfast tree root more (each wide rest) :=
        shows.steadfast_each restRelated
      exact ⟨steadfast.map _, fun found abridges => (ih restRelated).map
        steadfast fun _ _ others => .cons abridges others⟩

theorem prunes_eachNamed {types : List (String × TypeTerm)}
    (related : AlikeNamed .same links types types) :
    Prunes tree root links (Listwise (Named (Shape.Abridges True))) (eachNamed tight types)
      (eachNamed wide types) := by
  induction types generalizing links with
  | nil => exact prunes_pure .nil
  | cons named rest ih =>
    cases related with
    | cons head tail =>
      obtain ⟨alike⟩ := head
      refine (prunes links _ alike).bind (shows.steadfast alike) fun more below shape => ?_
      have restRelated := named_mono below tail
      have steadfast : Steadfast tree root more (eachNamed wide rest) :=
        shows.steadfast_eachNamed restRelated
      exact ⟨steadfast.map _, fun found abridges => (ih restRelated).map
        steadfast fun _ _ others => .cons ⟨abridges⟩ others⟩

/-! ## One level -/

theorem prunes_functionShape {signature : Signature TypeTerm}
    (related : AlikeSignature .same links signature signature) :
    Prunes tree root links (Shape.Abridges True) (functionShape tight signature)
      (functionShape wide signature) := by
  refine prunes_after (lasts_of_remembered (remembered_shownParameters related))
    fun more below parameters shown => ?_
  obtain ⟨_, returns⟩ := related
  have steadfast : Steadfast tree root more (eachNamed wide parameters) :=
    shows.steadfast_eachNamed shown
  constructor
  · exact steadfast.retains.bind closed_retains fun _ => (shows.retains _).map closed_retains
  · rintro _ rfl
    refine (prunes_eachNamed shows prunes shown).bind steadfast fun most further shapes => ?_
    have returnsAlike := returns.mono (below.trans further)
    exact ⟨(shows.steadfast returnsAlike).map _, fun found abridges =>
      (prunes most _ returnsAlike).map (shows.steadfast returnsAlike)
        fun _ _ returned => .function abridges returned⟩

end Parts

/-- The shape of an object type with some properties and a name, if it has one. -/
def shownProperties (simplifier : Simplifier) (levels : Nat)
    (simplify : TypeTerm → Expansion Shape) (properties : List (Property TypeTerm))
    (symbol : Option String) : Expansion Shape := do
  let name := (symbol.filter (!·.isEmpty)).getD ""
  if !name.isEmpty && simplifier.isCollapsed levels properties.length then return .reference name
  let limit := simplifier.settings.maxProperties
  let shown := (firstOf limit properties).map fun property =>
    (propertyLabel property, property.type)
  return .object (← eachNamed simplify shown) (decide (limit < properties.length))

theorem objectShape_eq_shown
    (simplifier : Simplifier) (levels : Nat) (simplify : TypeTerm → Expansion Shape)
    (type target : TypeTerm) :
    simplifier.objectShape levels simplify type target = (do
      let properties ← propertiesOf target
      if properties.isEmpty then return .object [] false
      simplifier.shownProperties levels simplify properties (← symbolOf type)) :=
  rfl

/-- Limits that are at most as wide as others, and all other settings the same. -/
structure Tightens (simplifier other : Simplifier) : Prop where
  depth : simplifier.settings.maxDepth ≤ other.settings.maxDepth
  properties : simplifier.settings.maxProperties ≤ other.settings.maxProperties
  threshold : simplifier.settings.collapseThreshold ≤ other.settings.collapseThreshold
  nodes : simplifier.settings.maxNodes = other.settings.maxNodes
  cleaner : simplifier.cleaner = other.cleaner

section Levels

variable {simplifier other : Simplifier} {levels others : Nat}

theorem Tightens.isCollapsed (tightens : simplifier.Tightens other)
    (sameDepth : simplifier.depth levels = other.depth others) {count : Nat}
    (collapsed : other.isCollapsed others count = true) :
    simplifier.isCollapsed levels count = true := by
  have threshold := tightens.threshold
  unfold Simplifier.isCollapsed at collapsed ⊢
  rw [sameDepth]
  simp only [Bool.and_eq_true, decide_eq_true_eq] at collapsed ⊢
  exact ⟨by omega, collapsed.2⟩

theorem Tightens.clean (tightens : simplifier.Tightens other) (text : String) :
    simplifier.clean text = other.clean text := by
  unfold Simplifier.clean
  rw [tightens.cleaner]

theorem Tightens.nameOf (tightens : simplifier.Tightens other) (type : TypeTerm) (text : String) :
    simplifier.nameOf type text = other.nameOf type text := by
  unfold Simplifier.nameOf
  simp only [tightens.clean]

theorem Tightens.prunes_verbatim (tightens : simplifier.Tightens other) (text : String) :
    Prunes tree root links (Shape.Abridges True)
      (do return .verbatim (← simplifier.clean text))
      (do return .verbatim (← other.clean text)) := by
  rw [tightens.clean]
  refine prunes_after (lasts_of_remembered (remembered_clean other text)) fun _ _ cleaned _ => ?_
  refine ⟨throughout_pure closed_retains _, ?_⟩
  rintro _ rfl
  exact prunes_pure .verbatim

/-- An object type that is shown with fewer properties says so. -/
theorem abridges_first {properties : List (Property TypeTerm)} {limit more : Int}
    {shown : List (String × Shape)} {entries rest : List (String × Shape)} (positive : 0 < limit)
    (wider : limit ≤ more) (related : Listwise (Named (Shape.Abridges True)) shown entries)
    (cut : rest = [] ↔ (properties.take more.toNat).drop limit.toNat = []) :
    (Shape.object shown (decide (limit < properties.length))).Abridges True
      (.object (entries ++ rest) (decide (more < properties.length))) := by
  cases rest with
  | nil =>
    have short : min more.toNat properties.length ≤ limit.toNat := by
      simpa using cut.mp rfl
    have same : decide (limit < (properties.length : Int)) =
        decide (more < (properties.length : Int)) := by
      apply decide_eq_decide.mpr
      omega
    rw [same, List.append_nil]
    exact .object related
  | cons next rest =>
    have long : ¬min more.toNat properties.length ≤ limit.toNat := fun short =>
      absurd (cut.mpr (by simpa using short)) (List.cons_ne_nil _ _)
    have truncated : limit < (properties.length : Int) := by omega
    rw [decide_eq_true truncated]
    exact .shortened trivial related

/-- Named types are shown under their names. -/
theorem returns_eachNamed_names
    (simplify : TypeTerm → Expansion Shape) (types : List (String × TypeTerm)) :
    Expansion.Returns (eachNamed simplify types)
      fun entries => entries.map Prod.fst = types.map Prod.fst := by
  induction types with
  | nil => exact returns_pure rfl
  | cons named rest ih =>
    refine (returns_any _).bind fun shape _ => ih.bind fun entries same => ?_
    exact returns_pure (congrArg (named.1 :: ·) same)

theorem shrinks_shownProperties (shrinks : ∀ type, Shrinks (wide type))
    (properties : List (Property TypeTerm)) (symbol : Option String) :
    Shrinks (other.shownProperties others wide properties symbol) := by
  unfold shownProperties
  dsimp only
  split
  · exact shrinks_pure
  · exact (shrinks_eachNamed shrinks _).bind fun _ => shrinks_pure

theorem retains_shownProperties (retains : ∀ type, Throughout (fun _ => Retains) (wide type))
    (properties : List (Property TypeTerm)) (symbol : Option String) :
    Throughout (fun _ => Retains) (other.shownProperties others wide properties symbol) := by
  unfold shownProperties
  dsimp only
  split
  · exact throughout_pure closed_retains _
  · exact (throughout_eachNamed closed_retains retains _).map closed_retains

variable (shows : Shows tree root wide)
  (prunes : ∀ links type, Alike .same links type type →
    Prunes tree root links (Shape.Abridges True) (tight type) (wide type))
  (tightens : simplifier.Tightens other)
  (positive : 0 < simplifier.settings.maxProperties)
  (sameDepth : simplifier.depth levels = other.depth others)

include shows prunes tightens positive sameDepth

/-- With tighter limits only the first of some properties are shown. -/
theorem prunes_shownProperties {properties : List (Property TypeTerm)} {symbol name : Option String}
    (related : Listwise (AlikeProperty .same links) properties properties)
    (kept : ∀ found, symbol = some found → name = some found) :
    Prunes tree root links (Shape.Abridges True)
      (simplifier.shownProperties levels tight properties name)
      (other.shownProperties others wide properties symbol) := by
  by_cases collapsed : (!((name.filter fun name => !name.isEmpty).getD "").isEmpty &&
      simplifier.isCollapsed levels properties.length) = true
  · unfold shownProperties
    dsimp only
    rw [if_pos collapsed]
    exact prunes_any (shrinks_shownProperties shows.shrinks properties symbol) fun _ => .named
  · have otherCollapsed : ¬(!((symbol.filter fun name => !name.isEmpty).getD "").isEmpty &&
        other.isCollapsed others properties.length) = true := by
      intro both
      obtain ⟨named, large⟩ := Bool.and_eq_true_iff.mp both
      cases symbol with
      | none => cases named
      | some found =>
        rw [kept found rfl] at collapsed
        exact collapsed (Bool.and_eq_true_iff.mpr ⟨named, tightens.isCollapsed sameDepth large⟩)
    unfold shownProperties
    dsimp only
    rw [if_neg collapsed, if_neg otherCollapsed]
    have wider := tightens.properties
    have first : properties.take other.settings.maxProperties.toNat =
        properties.take simplifier.settings.maxProperties.toNat ++
          (properties.take other.settings.maxProperties.toNat).drop
            simplifier.settings.maxProperties.toNat :=
      (List.take_append_drop simplifier.settings.maxProperties.toNat _).symm.trans
        (by rw [List.take_take, Nat.min_eq_left (Int.toNat_le_toNat wider)])
    rw [firstOf_eq_take positive, firstOf_eq_take (Int.lt_of_lt_of_le positive wider), first,
      List.map_append]
    intro before more left journal value after later standing ran remains enough grows
    obtain ⟨entries, between, middle, ranEntries, answered⟩ := bind_returns ran
    cases answered
    obtain ⟨shown, spent, start, rest, ranFirst, ranRest, rfl⟩ := eachNamed_append ranEntries
    have fewer : left ≤ spent := shrinks_eachNamed shows.shrinks _ _ _ _ _ _ _ ranRest
    have growsOn : Grows start.state after.state :=
      (throughout_eachNamed closed_retains shows.retains _ spent).grows ranRest
    obtain ⟨found, unspent, ranTight, affordable, abridges⟩ :=
      prunes_eachNamed shows prunes (labelled_related (related.take _)) before more spent journal
        shown start later standing ranFirst (Nat.lt_of_lt_of_le remains fewer) enough
        (growsOn.trans grows)
    have names := returns_eachNamed_names wide _ _ _ _ _ _ _ ranRest
    refine ⟨_, unspent, (bind_of_returns ranTight).trans rfl, by omega, ?_⟩
    refine abridges_first positive wider abridges ⟨?_, ?_⟩
    · rintro rfl
      simpa using names
    · intro none
      rw [none] at names
      simpa using names

/-- An object is pruned if its properties are. -/
theorem prunes_objectShape {type target : TypeTerm} (related : Alike .same links type type)
    (targetRelated : Alike .same links target target) :
    Prunes tree root links (Shape.Abridges True)
      (simplifier.objectShape levels tight type target)
      (other.objectShape others wide type target) := by
  rw [objectShape_eq_shown, objectShape_eq_shown]
  refine prunes_after (lasts_of_remembered (remembered_propertiesOf targetRelated))
    fun more below properties shown => ?_
  by_cases empty : properties.isEmpty = true
  · rw [if_pos empty]
    refine ⟨throughout_pure closed_retains _, ?_⟩
    rintro _ rfl
    rw [if_pos empty]
    exact prunes_pure (Shape.abridges_refl _)
  · have retains : ∀ symbol, Throughout (fun _ => Retains)
        (other.shownProperties others wide properties symbol) :=
      retains_shownProperties shows.retains properties
    rw [if_neg empty]
    refine ⟨throughout_after closed_retains (holds_symbolOf closed_retains type) retains, ?_⟩
    rintro _ rfl
    rw [if_neg empty]
    refine prunes_after (lasts_symbolOf (related.mono below)) fun most further symbol _ => ?_
    exact ⟨retains symbol, fun name kept =>
      prunes_shownProperties shows prunes tightens positive sameDepth
        (properties_mono further shown) kept⟩

/-- Expanding a type prunes if its parts do. -/
theorem prunes_expand
    {type target : TypeTerm} {tightSignature wideSignature : Signature TypeTerm → Expansion Shape}
    (signatures : ∀ links signature, AlikeSignature .same links signature signature →
      Prunes tree root links (Shape.Abridges True) (tightSignature signature)
        (wideSignature signature))
    (related : Alike .same links type type) (targetRelated : Alike .same links target target) :
    Prunes tree root links (Shape.Abridges True)
      (simplifier.expand levels tight tightSignature type target)
      (other.expand others wide wideSignature type target) := by
  cases targetRelated with
  | primitive => exact prunes_pure .primitive
  | literal => exact prunes_pure .literal
  | array element =>
    exact (prunes links _ element).map (shows.steadfast element) fun _ _ => .array
  | tuple elements =>
    exact (prunes_each shows prunes elements).map (shows.steadfast_each elements) fun _ _ => .tuple
  | union members =>
    exact (prunes_each shows prunes members).map (shows.steadfast_each members) fun _ _ => .union
  | intersection members =>
    exact (prunes_each shows prunes members).map (shows.steadfast_each members)
      fun _ _ => .intersection
  | object linked source code name =>
    exact prunes_objectShape shows prunes tightens positive sameDepth related
      (.object linked source code name)
  | function listed =>
    cases listed with
    | nil => exact tightens.prunes_verbatim _
    | cons signature _ => exact signatures links _ signature
  | verbatim => exact tightens.prunes_verbatim _
  | reference linked scopes moved => exact tightens.prunes_verbatim _

end Levels

/-! ## All levels -/

section Whole

variable {simplifier other : Simplifier}

theorem shows_shapeAt (simplifier : Simplifier) (levels : Nat) (visited : List String) :
    Shows tree root (simplifier.shapeAt levels visited) :=
  ⟨(shrinks_shapeAt simplifier levels).1 visited, simplifier.showAlike_same levels visited,
    (throughout_shapeAt closed_retains simplifier levels).1 visited⟩

/-- With tighter limits shapes are pruned, where both runs are at the same depth. -/
theorem prunes_shapeAt (tightens : simplifier.Tightens other)
    (positive : 0 < simplifier.settings.maxProperties) {spare : Nat}
    (deeper : simplifier.settings.maxDepth + spare = other.settings.maxDepth) (levels : Nat) :
    (∀ visited links type, Alike .same links type type →
      Prunes tree root links (Shape.Abridges True) (simplifier.shapeAt levels visited type)
        (other.shapeAt (levels + spare) visited type)) ∧
    ∀ visited links signature, AlikeSignature .same links signature signature →
      Prunes tree root links (Shape.Abridges True)
        (simplifier.signatureAt levels visited signature)
        (other.signatureAt (levels + spare) visited signature) := by
  induction levels with
  | zero =>
    obtain ⟨types, signatures⟩ := other.shrinks_shapeAt (0 + spare)
    exact ⟨fun visited _ type _ => prunes_any (types visited type) fun _ => .named,
      fun visited _ signature _ => prunes_any (signatures visited signature) fun _ => .named⟩
  | succ levels ih =>
    obtain ⟨types, signatures⟩ := ih
    rw [Nat.add_right_comm]
    constructor
    · intro visited links type related
      have sameDepth : simplifier.depth (levels + 1) = other.depth (levels + spare + 1) := by
        unfold depth
        omega
      have expands : ∀ more, links.Below more → ∀ target, Alike .same more target target → _ :=
        fun more below target targetRelated =>
          prunes_expand (shows_shapeAt other (levels + spare) (type.text :: visited))
            (types (type.text :: visited)) tightens positive sameDepth
            (signatures (type.text :: visited)) (related.mono below) targetRelated
      unfold shapeAt
      dsimp only
      rw [sameDepth, tightens.nameOf]
      split
      · exact prunes_lift (lasts_nameOf related other _)
      split
      · exact prunes_pure .primitive
      split
      · exact prunes_pure .literal
      refine prunes_spend ?_ (shrinks_lift _)
      refine prunes_after (lasts_of_remembered (remembered_structureOf related))
        fun more below target targetRelated => ⟨?_, ?_⟩
      · obtain ⟨retainTypes, retainSignatures⟩ :=
          throughout_shapeAt closed_retains other (levels + spare)
        exact throughout_expand closed_retains (retainTypes _) (retainSignatures _) type target
      · rintro _ rfl
        exact expands more below _ targetRelated
    · exact fun visited links signature related =>
        prunes_functionShape (shows_shapeAt other (levels + spare) visited) (types visited) related

/-- With tighter limits a type is shown with parts left out: some are shown by name, and some object
types with their first properties only, which they tell.  This holds in every session that knows
what the session knows after showing it with the wider limits, unless these use up all expansions.
-/
theorem tighter_limits_prune (tightens : simplifier.Tightens other)
    (positive : 0 < simplifier.settings.maxProperties)
    {depth : Int} {visited : List String} {type : TypeTerm} {journal after later : Journal Session}
    {whole : Shape} {left : Nat} (holding : Holding tree root journal.state type)
    (ran : other.shapeAt (other.levelsAt depth) visited type other.expansions tree journal =
      (.ok (whole, left), after))
    (remains : 0 < left) (grows : Grows after.state later.state) :
    ∃ shape, simplifier.simplify depth visited type tree later = (.ok shape, later) ∧
      shape.Abridges True whole := by
  obtain ⟨links, standing, related⟩ := holding
  have sameNodes : simplifier.expansions = other.expansions := by
    unfold expansions
    rw [tightens.nodes]
  by_cases cut : simplifier.settings.maxDepth ≤ depth
  · have none : simplifier.levelsAt depth = 0 := by
      unfold levelsAt
      omega
    refine ⟨.cut, ?_, .named⟩
    unfold simplify
    rw [none]
    rfl
  · have deeper := tightens.depth
    obtain ⟨spare, more⟩ : ∃ spare : Nat,
        simplifier.settings.maxDepth + spare = other.settings.maxDepth :=
      ⟨(other.settings.maxDepth - simplifier.settings.maxDepth).toNat, by omega⟩
    have levels : other.levelsAt depth = simplifier.levelsAt depth + spare := by
      unfold levelsAt
      omega
    rw [levels] at ran
    obtain ⟨shape, rest, ranTight, _, abridges⟩ :=
      (prunes_shapeAt tightens positive more (simplifier.levelsAt depth)).1 visited links type
        related _ _ left journal whole after later standing ran remains
        (Nat.le_of_eq sameNodes.symm) grows
    exact ⟨shape, run'_of_returns ranTight, abridges⟩

end Whole

/-! ## A name that is found on the way -/

/-- The type of a declaration is held by the session that it is read in. -/
theorem holding_declarationType
    {declaration : Declaration} {source : SourceModule} {journal after : Journal Session}
    {type : TypeTerm} (fromTree : FromTree tree root journal.state)
    (ran : declarationType declaration source tree journal = (.ok type, after)) :
    Holding tree root after.state type := by
  have sources : Sources (.same tree root) source source := source.revised_same _
  obtain ⟨links, _, standing, related⟩ :=
    (followed_declarationType sources (declaration.revised_same _)).itself
      (matches_alone fromTree) ran
  exact ⟨links, standing, related⟩

/-- An object type in an interface. -/
def nestedNode (text : String) (members : List Node) : Node :=
  .mk "object_type" true none 0 1 text members

/-- Members that use the type parameter of their interface: two levels below a member through an
alias, and one level below another member. -/
def sharingNode : Node :=
  genericNode pairNode [memberNode 20 "p" (nestedNode "p"
      [memberNode 24 "q" (nestedNode "q" [aliasMember 28])]),
    memberNode 40 "s" (nestedNode "s" [memberNode 44 "u" (parameterUse none "T")])]

/-- A module with the interface and an alias that stands for its argument. -/
def sharingModule : SourceModule :=
  .ofTree (.ofRoot ["a.ts"]) .plain (.mk "program" true none 0 1 "" [sharingNode,
    .mk "type_alias_declaration" true none 90 2 "" [nameNode "type_identifier" "name" "Id",
      parameterNode "U" [], parameterUse (some "value") "U"]])

/-- The type of the interface. -/
def sharingType : Task Session TypeTerm :=
  declarationType ⟨"I", "interface", sharingNode, true, none, none⟩ sharingModule

/-- A simplifier with a depth limit that shows no object type with a name that has two members
inside of others. -/
def toDepth (depth : Int) : Simplifier :=
  .ofSettings
    { Settings.default with maxDepth := depth, collapseThreshold := 1, wrapperRules := [] }

theorem toDepth_tightens {depth more : Int} (shallower : depth ≤ more) :
    (toDepth depth).Tightens (toDepth more) :=
  ⟨shallower, Int.le_refl _, Int.le_refl _, rfl, rfl⟩

/-- The interface shown with ten levels, and the expansions left. -/
def sharingWhole : Task Session (TypeTerm × Shape × Nat) := do
  let type ← sharingType
  return (type, ← (toDepth 10).shapeAt ((toDepth 10).levelsAt 0) [] type (toDepth 10).expansions)

/-- Read and then shown with ten levels, the interface has four object types and expansions are
left. -/
theorem sharing_shows_four :
    (sharingWhole.outcomeFrom default (.fresh (.ofRoot []))).map
      (fun (_, whole, left) => (whole.structured, decide (0 < left))) = .ok (4, true) := by
  decide +kernel

/-- Shown again with two levels, the interface has the object types of the first of them. -/
theorem sharing_pruned :
    ∃ type journal whole left after shape,
      (toDepth 10).shapeAt ((toDepth 10).levelsAt 0) [] type (toDepth 10).expansions default
        journal = (.ok (whole, left), after) ∧
      whole.structured = 4 ∧
      (toDepth 2).simplify 0 [] type default after = (.ok shape, after) ∧
      shape.structured = 3 ∧ shape.Abridges True whole := by
  have again : ((sharingWhole >>= fun answer => (toDepth 2).simplify 0 [] answer.1).outcomeFrom
      default (.fresh (.ofRoot []))).map Shape.structured = .ok 3 := by decide +kernel
  obtain ⟨⟨type, whole, left⟩, after, ran, shown⟩ := Task.exists_of_outcomeFrom sharing_shows_four
  obtain ⟨size, remains⟩ := Prod.ext_iff.mp shown
  obtain ⟨_, journal, read, ranShape⟩ := Task.exists_of_bind_eq_ok ran
  obtain ⟨_, _, ranWhole, answered⟩ := Task.exists_of_bind_eq_ok ranShape
  cases answered
  have shallower : (2 : Int) ≤ 10 := by decide
  obtain ⟨shape, ranTight, abridges⟩ := tighter_limits_prune (toDepth_tightens shallower)
    (by decide) (holding_declarationType fromTree_fresh read) ranWhole
    (of_decide_eq_true remains) (.refl _)
  obtain ⟨found, last, ranAgain, fewer⟩ := Task.exists_of_outcomeFrom again
  rw [Task.bind_of_ok ran, ranTight] at ranAgain
  cases ranAgain
  exact ⟨type, journal, whole, left, after, shape, ranWhole, size, ranTight, fewer, abridges⟩

/-- Shown for the first time with three levels, the interface has five object types: the alias lies
too deep to be followed, and so the object type that it stands for has no name at the other place,
where it is shown with its members. -/
theorem tighter_limit_shows_members :
    ¬∀ (tree : FileTree) (root : Path) (simplifier other : Simplifier) (depth : Int)
      (visited : List String) (type : TypeTerm) (journal after : Journal Session) (whole : Shape)
      (left : Nat), simplifier.Tightens other → 0 < simplifier.settings.maxDepth →
      0 < simplifier.settings.maxProperties → 0 < simplifier.settings.collapseThreshold →
      Holding tree root journal.state type →
      other.shapeAt (other.levelsAt depth) visited type other.expansions tree journal =
        (.ok (whole, left), after) → 0 < left →
      ∃ shape last, simplifier.simplify depth visited type tree journal = (.ok shape, last) ∧
        shape.Abridges True whole := by
  intro always
  have first : ((sharingType >>= (toDepth 3).simplify 0 []).outcomeFrom
      default (.fresh (.ofRoot []))).map Shape.structured = .ok 5 := by decide +kernel
  obtain ⟨⟨type, whole, left⟩, after, ran, shown⟩ := Task.exists_of_outcomeFrom sharing_shows_four
  obtain ⟨size, remains⟩ := Prod.ext_iff.mp shown
  obtain ⟨_, journal, read, ranShape⟩ := Task.exists_of_bind_eq_ok ran
  obtain ⟨_, _, ranWhole, answered⟩ := Task.exists_of_bind_eq_ok ranShape
  cases answered
  obtain ⟨shape, last, ranTight, abridges⟩ := always default (.ofRoot []) (toDepth 3) (toDepth 10) 0
    [] type journal after whole left (toDepth_tightens (by decide)) (by decide) (by decide)
    (by decide) (holding_declarationType fromTree_fresh read) ranWhole (of_decide_eq_true remains)
  obtain ⟨found, _, ranFirst, more⟩ := Task.exists_of_outcomeFrom first
  rw [Task.bind_of_ok read, ranTight] at ranFirst
  cases ranFirst
  have fewer := abridges.structured_le
  dsimp only at size
  omega

end Simplifier
end ModuleAtlas
