import ModuleAtlas.Proofs.Types.ReExports

/-!
# Searching for an export

A search for an exported name asks no question twice.  It keeps the questions that it has asked,
also those that it is still answering, and takes them for answered in vain.  When it finds nothing,
every question that it asked leads to questions that it asked as well, and no module exports the
name that it was asked for: so none of them provides it, in whatever circles the re-exports lead.
When it finds something, the module exports the name itself, or the first of its re-exports has
decided that leads to declarations at all.
-/

namespace ModuleAtlas
namespace Types

open Session

variable {tree : FileTree} {root : Path} {source : SourceModule} {name : String}

/-! ## Where declarations come from -/

/-- The declarations that a module exports itself under a name. -/
def ownDeclarations (source : SourceModule) (name : String) : List Declaration :=
  (source.exports.filter fun entry => entry.1 == name).map (·.2)

theorem ownDeclarations_eq_nil_iff :
    ownDeclarations source name = [] ↔ name ∉ source.exports.map Prod.fst := by
  unfold ownDeclarations
  rw [List.map_eq_nil_iff, List.filter_eq_nil_iff]
  constructor
  · intro others member
    obtain ⟨entry, entryMember, rfl⟩ := List.mem_map.mp member
    exact others entry entryMember (beq_self_eq_true _)
  · intro notOwn entry member same
    exact notOwn (List.mem_map.mpr ⟨entry, member, eq_of_beq same⟩)

/-- The declarations behind a name that a module exports: its own, or else those behind the name
under which a re-export hands it on.  None of the barred questions is asked on the way. -/
inductive Yields (tree : FileTree) (root : Path) (barred : Asked) :
    SourceModule → String → Found → Prop where
  | own {source : SourceModule} {name : String}
      (new : (source.path, name) ∉ barred)
      (member : name ∈ source.exports.map Prod.fst) :
      Yields tree root barred source name (ownDeclarations source name, source)
  | handed {source target : SourceModule} {entry : ReExport} {name imported : String}
      {found : Found}
      (new : (source.path, name) ∉ barred)
      (notOwn : name ∉ source.exports.map Prod.fst)
      (member : entry ∈ source.reExports)
      (named : ReExport.sourceName? entry name = some imported)
      (leads : source.Leads tree root entry target)
      (yields : Yields tree root barred target imported found) :
      Yields tree root barred source name found

section Yields

variable {barred fewer : Asked} {source : SourceModule} {name : String} {found : Found}

section

variable (yields : Yields tree root barred source name found)

include yields

theorem Yields.new :
    (source.path, name) ∉ barred := by
  cases yields with
  | own new _ => exact new
  | handed new _ _ _ _ _ => exact new

theorem Yields.anti (included : fewer ⊆ barred) :
    Yields tree root fewer source name found := by
  induction yields with
  | own new member => exact .own (fun old => new (included old)) member
  | handed new notOwn member named leads _ ih =>
    exact .handed (fun old => new (included old)) notOwn member named leads ih

theorem Yields.nonempty : found.1 ≠ [] := by
  induction yields with
  | own _ member => exact fun nothing => ownDeclarations_eq_nil_iff.mp nothing member
  | handed _ _ _ _ _ _ ih => exact ih

theorem Yields.provides :
    Provides tree root source name := by
  induction yields with
  | own _ member => exact .own member
  | handed _ _ member named leads _ ih =>
    exact .handed member named leads ih

end

/-- Behind every provided name there are declarations. -/
theorem Provides.exists_yields (provides : Provides tree root source name) :
    ∃ found, Yields tree root [] source name found := by
  induction provides with
  | own member => exact ⟨_, .own List.not_mem_nil member⟩
  | @handed source _ _ name _ member named leads _ ih =>
    obtain ⟨found, yields⟩ := ih
    by_cases own : name ∈ source.exports.map Prod.fst
    · exact ⟨_, .own List.not_mem_nil own⟩
    · exact ⟨found, .handed List.not_mem_nil own member named leads yields⟩

end Yields

/-- A re-export of a module leads to declarations behind a name, by none of the barred questions. -/
def Reaches (tree : FileTree) (root : Path) (barred : Asked) (source : SourceModule)
    (name : String) (entry : ReExport) (found : Found) : Prop :=
  ∃ imported target, ReExport.sourceName? entry name = some imported ∧
    source.Leads tree root entry target ∧ Yields tree root barred target imported found

/-- The first of some re-exports of a module that leads to declarations behind a name. -/
def First (tree : FileTree) (root : Path) (barred : Asked) (source : SourceModule) (name : String)
    (entries : List ReExport) (entry : ReExport) (found : Found) : Prop :=
  ∃ earlier later, entries = earlier ++ entry :: later ∧
    (∀ other ∈ earlier, ∀ others, ¬Reaches tree root barred source name other others) ∧
    Reaches tree root barred source name entry found

/-- The declarations with which a module answers a question: its own, or else those to which the
first of its re-exports leads that leads to any. -/
inductive Chosen (tree : FileTree) (root : Path) (barred : Asked) (source : SourceModule)
    (name : String) : Found → Prop where
  | own
      (new : (source.path, name) ∉ barred)
      (member : name ∈ source.exports.map Prod.fst) :
      Chosen tree root barred source name (ownDeclarations source name, source)
  | handed {entry : ReExport} {found : Found}
      (new : (source.path, name) ∉ barred)
      (notOwn : name ∉ source.exports.map Prod.fst)
      (first : First tree root ((source.path, name) :: barred) source name source.reExports entry
        found) :
      Chosen tree root barred source name found

section First

variable {barred : Asked} {source target : SourceModule} {name imported : String}
  {entry other : ReExport} {entries rest : List ReExport} {found : Found}

theorem First.mem (first : First tree root barred source name entries entry found) :
    entry ∈ entries := by
  obtain ⟨earlier, later, rfl, _⟩ := first
  exact List.mem_append_right _ List.mem_cons_self

theorem First.reaches (first : First tree root barred source name entries entry found) :
    Reaches tree root barred source name entry found := by
  obtain ⟨_, _, _, _, reaches⟩ := first
  exact reaches

theorem First.provides (first : First tree root barred source name source.reExports entry found) :
    Provides tree root source name := by
  obtain ⟨imported, target, named, leads, yields⟩ := first.reaches
  exact .handed first.mem named leads yields.provides

theorem first_head (reaches : Reaches tree root barred source name entry found) :
    First tree root barred source name (entry :: rest) entry found :=
  ⟨[], rest, rfl, nofun, reaches⟩

theorem First.cons (first : First tree root barred source name rest entry found)
    (missed : ∀ others, ¬Reaches tree root barred source name other others) :
    First tree root barred source name (other :: rest) entry found := by
  obtain ⟨earlier, later, split, before, reaches⟩ := first
  refine ⟨other :: earlier, later, congrArg (other :: ·) split, fun each member => ?_, reaches⟩
  rcases List.mem_cons.mp member with rfl | among
  · exact missed
  · exact before each among

/-- The first re-export stands no later than any other that leads to declarations. -/
theorem First.mem_earlier_or_eq {earlier later : List ReExport} {others : Found}
    (first : First tree root barred source name (earlier ++ other :: later) entry found)
    (reaches : Reaches tree root barred source name other others) :
    entry ∈ earlier ∨ entry = other := by
  obtain ⟨early, late, split, missed, _⟩ := first
  rcases List.append_eq_append_iff.mp split with ⟨between, rfl, tail⟩ | ⟨between, rfl, tail⟩
  · cases between with
    | nil => exact .inr (List.cons.inj tail).1.symm
    | cons head rest =>
      cases (List.cons.inj tail).1
      exact absurd reaches (missed other (by simp) others)
  · cases between with
    | nil => exact .inr (List.cons.inj tail).1
    | cons head rest =>
      cases (List.cons.inj tail).1
      exact .inl (by simp)

theorem First.unique {others : Found}
    (first : First tree root barred source name entries entry found)
    (second : First tree root barred source name entries other others) :
    entry = other := by
  obtain ⟨earlier, later, rfl, missed, reaches⟩ := second
  exact (first.mem_earlier_or_eq reaches).resolve_left fun member =>
    missed entry member _ first.reaches

theorem Chosen.yields (chosen : Chosen tree root barred source name found) :
    Yields tree root barred source name found := by
  cases chosen with
  | own new member => exact .own new member
  | handed new notOwn first =>
    obtain ⟨imported, target, named, leads, yields⟩ := first.reaches
    exact .handed new notOwn first.mem named leads (yields.anti fun _ => List.mem_cons_of_mem _)

end First

/-! ## Questions asked in vain -/

/-- A question that other questions do not answer: the module does not export the name itself, and
wherever its re-exports lead with the name has been asked. -/
def Exhausted (tree : FileTree) (root : Path) (asked : Asked) (question : Path × String) : Prop :=
  ∀ source : SourceModule, source.StandsIn tree → source.path = question.1 →
    question.2 ∉ source.exports.map Prod.fst ∧
    ∀ entry ∈ source.reExports, ∀ imported target,
      ReExport.sourceName? entry question.2 = some imported →
      source.Leads tree root entry target → (target.path, imported) ∈ asked

theorem Exhausted.mono {asked more : Asked} {question : Path × String}
    (exhausted : Exhausted tree root asked question) (grows : asked ⊆ more) :
    Exhausted tree root more question := by
  intro source stands same
  obtain ⟨notOwn, onward⟩ := exhausted source stands same
  exact ⟨notOwn, fun entry member imported target named leads =>
    grows (onward entry member imported target named leads)⟩

/-- Questions that were asked in vain lead to no declarations, so they may be barred as well. -/
theorem Yields.barring
    {barred asked : Asked} {found : Found}
    (yields : Yields tree root barred source name found)
    (exhausted : ∀ question ∈ asked, question ∈ barred ∨ Exhausted tree root asked question)
    (stands : source.StandsIn tree) :
    Yields tree root asked source name found := by
  induction yields with
  | @own source name new own =>
    refine .own (fun old => ?_) own
    have inVain := (exhausted _ old).resolve_left new
    exact (inVain source stands rfl).1 own
  | @handed source _ entry name imported _ new notOwn member named leads _ ih =>
    have onward := ih leads.standsIn
    refine .handed (fun old => ?_) notOwn member named leads onward
    have inVain := (exhausted _ old).resolve_left new
    exact onward.new ((inVain source stands rfl).2 entry member _ _ named leads)

/-- The first re-export that leads to declarations stays the first when questions are open again
that were asked in vain. -/
theorem First.unbarring
    {barred asked : Asked} {entries : List ReExport}
    {entry : ReExport} {found : Found}
    (first : First tree root asked source name entries entry found) (grows : barred ⊆ asked)
    (exhausted : ∀ question ∈ asked, question ∈ barred ∨ Exhausted tree root asked question) :
    First tree root barred source name entries entry found := by
  obtain ⟨earlier, later, split, before, imported, target, named, leads, yields⟩ := first
  refine ⟨earlier, later, split, ?_, imported, target, named, leads, yields.anti grows⟩
  rintro other member others ⟨otherImported, otherTarget, otherNamed, otherLeads, otherYields⟩
  exact before other member others ⟨otherImported, otherTarget, otherNamed, otherLeads,
    otherYields.barring exhausted otherLeads.standsIn⟩

/-! ## What searches come to -/

/-- What a search comes to that starts when some questions have been asked. -/
structure Searched (tree : FileTree) (root : Path) (before : Asked) (source : SourceModule)
    (name : String) (found : Option Found) (after : Asked) : Prop where
  grows : before ⊆ after
  asked : (source.path, name) ∈ after
  sound : ∀ declarations, found = some declarations →
    Chosen tree root before source name declarations
  exhausted : found = none → ∀ question ∈ after,
    question ∈ before ∨ Exhausted tree root after question

/-- What the search among re-exports of a module comes to. -/
structure SearchedAmong (tree : FileTree) (root : Path) (before : Asked) (source : SourceModule)
    (entries : List ReExport) (name : String) (found : Option Found) (after : Asked) : Prop where
  grows : before ⊆ after
  sound : ∀ declarations, found = some declarations →
    ∃ entry, First tree root before source name entries entry declarations
  onward : found = none → ∀ entry ∈ entries, ∀ imported target,
    ReExport.sourceName? entry name = some imported → source.Leads tree root entry target →
      (target.path, imported) ∈ after
  exhausted : found = none → ∀ question ∈ after,
    question ∈ before ∨ Exhausted tree root after question

section Among

variable {before middle after : Asked} {source target : SourceModule} {entry : ReExport}
  {rest : List ReExport} {name imported : String} {found : Option Found}

theorem searchedAmong_nil (before : Asked) (source : SourceModule) (name : String) :
    SearchedAmong tree root before source [] name none before :=
  ⟨fun _ member => member, nofun, fun _ _ member => absurd member List.not_mem_nil,
    fun _ _ member => .inl member⟩

/-- A re-export that leads nowhere with the name is passed over. -/
theorem SearchedAmong.skip (searched : SearchedAmong tree root before source rest name found after)
    (nowhere : ∀ imported target, ReExport.sourceName? entry name = some imported →
      ¬source.Leads tree root entry target) :
    SearchedAmong tree root before source (entry :: rest) name found after where
  grows := searched.grows
  sound := fun declarations equal => by
    obtain ⟨other, first⟩ := searched.sound declarations equal
    refine ⟨other, first.cons ?_⟩
    rintro _ ⟨imported, target, named, leads, _⟩
    exact nowhere imported target named leads
  onward := fun nothing other member imported target named leads => by
    rcases List.mem_cons.mp member with rfl | later
    · exact absurd leads (nowhere imported target named)
    · exact searched.onward nothing other later imported target named leads
  exhausted := searched.exhausted

/-- What is found through the first re-export is the answer. -/
theorem Searched.among {declarations : Found}
    (searched : Searched tree root before target imported (some declarations) after)
    (named : ReExport.sourceName? entry name = some imported)
    (leads : source.Leads tree root entry target) :
    SearchedAmong tree root before source (entry :: rest) name (some declarations) after where
  grows := searched.grows
  sound := fun others equal =>
    ⟨entry, first_head ⟨imported, target, named, leads, (searched.sound others equal).yields⟩⟩
  onward := nofun
  exhausted := nofun

/-- When nothing is found through the first re-export, the search goes on. -/
theorem SearchedAmong.after_none
    (others : SearchedAmong tree root middle source rest name found after)
    (searched : Searched tree root before target imported none middle)
    (named : ReExport.sourceName? entry name = some imported)
    (leads : source.Leads tree root entry target) :
    SearchedAmong tree root before source (entry :: rest) name found after where
  grows := fun _ member => others.grows (searched.grows member)
  sound := fun declarations equal => by
    obtain ⟨other, first⟩ := others.sound declarations equal
    have inVain := searched.exhausted rfl
    refine ⟨other, (first.unbarring searched.grows inVain).cons ?_⟩
    rintro missed ⟨otherImported, otherTarget, otherNamed, otherLeads, yields⟩
    rw [named] at otherNamed
    cases otherNamed
    cases leads.unique otherLeads
    exact (yields.barring inVain leads.standsIn).new searched.asked
  onward := fun nothing other member otherImported otherTarget otherNamed otherLeads => by
    rcases List.mem_cons.mp member with rfl | later
    · rw [named] at otherNamed
      cases otherNamed
      cases leads.unique otherLeads
      exact others.grows searched.asked
    · exact others.onward nothing other later _ _ otherNamed otherLeads
  exhausted := fun nothing question member => by
    rcases others.exhausted nothing question member with early | exhausted
    · exact (searched.exhausted rfl question early).imp_right fun exhausted =>
        exhausted.mono others.grows
    · exact .inr exhausted

end Among

/-! ## The search -/

/-- Every name that a search goes on with is the one that it started with, or written in a file. -/
theorem sourceName?_mem {entry : ReExport} {wanted name imported : String}
    (stands : source.StandsIn tree) (member : entry ∈ source.reExports)
    (known : name ∈ insert wanted tree.importedNames)
    (named : ReExport.sourceName? entry name = some imported) :
    imported ∈ insert wanted tree.importedNames := by
  unfold ReExport.sourceName? at named
  split at named
  · split at named
    · cases named
    · cases named
      exact known
  · rename_i names listed
    obtain ⟨early, late, split, _⟩ := List.lookup_eq_some_iff.mp named
    have pairMember : (name, imported) ∈ names := by simp [split]
    exact Finset.mem_insert_of_mem (FileTree.mem_importedNames stands member listed pairMember)

/-- Searches that leave at most so many questions open come to an end, each in no more steps. -/
def SearchesEnd (tree : FileTree) (root : Path) (wanted : String) (room : Nat) : Prop :=
  ∀ (before : Asked) (source : SourceModule) (name : String),
    source.StandsIn tree → source.Followable tree root →
    name ∈ insert wanted tree.importedNames →
    remaining (tree.questions wanted) before ≤ room →
    ∃ found after, Searched tree root before source name found after ∧
      ∀ fuel, room < fuel →
        Task.Settles tree (FromTree tree root) (findWith fuel before source name)
          (.ok (found, after))

/-- Going through the re-exports ends if each search behind them does. -/
theorem SearchesEnd.among
    {wanted name : String} {room : Nat} {entries : List ReExport}
    {before : Asked} (ends : SearchesEnd tree root wanted room) (stands : source.StandsIn tree)
    (followable : source.Followable tree root) (known : name ∈ insert wanted tree.importedNames)
    (included : entries ⊆ source.reExports)
    (enough : remaining (tree.questions wanted) before ≤ room) :
    ∃ found after, SearchedAmong tree root before source entries name found after ∧
      ∀ fuel, room < fuel →
        Task.Settles tree (FromTree tree root)
          (findAmong (findWith fuel) source name before entries) (.ok (found, after)) := by
  induction entries generalizing before with
  | nil => exact ⟨none, before, searchedAmong_nil before source name, fun _ _ =>
    Task.settles_pure _⟩
  | cons entry rest ih =>
    have member := included List.mem_cons_self
    have restIncluded : rest ⊆ source.reExports :=
      fun other otherMember => included (List.mem_cons_of_mem _ otherMember)
    cases named : ReExport.sourceName? entry name with
    | none =>
      obtain ⟨found, after, searched, settles⟩ := ih restIncluded enough
      refine ⟨found, after, searched.skip fun imported target other => ?_, fun fuel more => ?_⟩
      · rw [named] at other
        cases other
      · unfold findAmong
        rw [named]
        exact settles fuel more
    | some imported =>
      obtain ⟨loaded, loads, leadsTo⟩ := followable.settles_load member
      cases loaded with
      | none =>
        obtain ⟨found, after, searched, settles⟩ := ih restIncluded enough
        refine ⟨found, after, searched.skip fun _ target _ leads => ?_, fun fuel more => ?_⟩
        · cases (leadsTo target).mpr leads
        · unfold findAmong
          rw [named]
          exact loads.bind (settles fuel more)
      | some target =>
        have leads := (leadsTo target).mp rfl
        have asked := sourceName?_mem stands member known named
        obtain ⟨found, middle, searched, settles⟩ := ends before target imported
          leads.standsIn (followable.next member leads) asked enough
        cases found with
        | some declarations =>
          refine ⟨some declarations, middle, searched.among named leads, fun fuel more => ?_⟩
          unfold findAmong
          rw [named]
          exact loads.bind ((settles fuel more).bind (Task.settles_pure _))
        | none =>
          have less := (remaining_le_of_subset searched.grows).trans enough
          obtain ⟨found, after, others, settlesOthers⟩ :=
            ih restIncluded less
          refine ⟨found, after, others.after_none searched named leads, fun fuel more => ?_⟩
          unfold findAmong
          rw [named]
          exact loads.bind ((settles fuel more).bind (settlesOthers fuel more))

/-- A question that has been asked is not asked again. -/
theorem searched_of_asked {before : Asked}
    (asked : (source.path, name) ∈ before) :
    Searched tree root before source name none before :=
  ⟨fun _ member => member, asked, nofun, fun _ _ member => .inl member⟩

/-- A module that does not export a name itself provides it when one of its re-exports does. -/
theorem SearchedAmong.searched
    {before after : Asked} {found : Option Found}
    (among : SearchedAmong tree root ((source.path, name) :: before) source source.reExports name
      found after)
    (stands : source.StandsIn tree) (new : (source.path, name) ∉ before)
    (notOwn : name ∉ source.exports.map Prod.fst) :
    Searched tree root before source name found after where
  grows := fun _ member => among.grows (List.mem_cons_of_mem _ member)
  asked := among.grows List.mem_cons_self
  sound := fun declarations equal => by
    obtain ⟨_, first⟩ := among.sound declarations equal
    exact .handed new notOwn first
  exhausted := fun nothing question member => by
    rcases among.exhausted nothing question member with early | exhausted
    · rcases List.mem_cons.mp early with rfl | old
      · refine .inr fun other otherStands same => ?_
        cases otherStands.unique stands same
        exact ⟨notOwn, among.onward nothing⟩
      · exact .inl old
    · exact .inr exhausted

section Steps

variable {fuel : Nat} {before : Asked} {source : SourceModule} {name : String}

theorem findWith_of_asked (asked : (source.path, name) ∈ before) :
    findWith (fuel + 1) before source name = pure (none, before) := by
  unfold findWith
  rw [if_pos (List.contains_iff_mem.mpr asked)]

/-- A name that the module exports itself is found there. -/
theorem findWith_of_own (new : (source.path, name) ∉ before)
    (own : name ∈ source.exports.map Prod.fst) :
    findWith (fuel + 1) before source name =
      pure (some (ownDeclarations source name, source), (source.path, name) :: before) := by
  have some : ownDeclarations source name ≠ [] :=
    fun nothing => ownDeclarations_eq_nil_iff.mp nothing own
  unfold findWith
  rw [if_neg (mt List.contains_iff_mem.mp new)]
  unfold ownDeclarations at some ⊢
  split
  · exact absurd ‹_› some
  · rfl

theorem findWith_of_notOwn (new : (source.path, name) ∉ before)
    (notOwn : name ∉ source.exports.map Prod.fst) :
    findWith (fuel + 1) before source name =
      findAmong (findWith fuel) source name ((source.path, name) :: before) source.reExports := by
  have nothing := ownDeclarations_eq_nil_iff.mpr notOwn
  unfold ownDeclarations at nothing
  rw [findWith, if_neg (mt List.contains_iff_mem.mp new), nothing]

end Steps

/-- Each search asks a question that was open before, so the searches inside of it leave fewer open.
-/
theorem searchesEnd (wanted : String) (room : Nat) : SearchesEnd tree root wanted room := by
  induction room using Nat.strongRecOn with
  | ind room ih =>
    intro before source name stands followable known enough
    by_cases asked : (source.path, name) ∈ before
    · refine ⟨none, before, searched_of_asked asked, fun fuel more => ?_⟩
      obtain ⟨fuel, rfl⟩ := Nat.exists_eq_succ_of_ne_zero (Nat.ne_zero_of_lt more)
      rw [findWith_of_asked asked]
      exact Task.settles_pure _
    by_cases own : name ∈ source.exports.map Prod.fst
    · refine ⟨some (ownDeclarations source name, source), (source.path, name) :: before,
        ⟨fun _ => List.mem_cons_of_mem _, List.mem_cons_self, ?_, nofun⟩, fun fuel more => ?_⟩
      · rintro _ ⟨⟩
        exact .own asked own
      · obtain ⟨fuel, rfl⟩ := Nat.exists_eq_succ_of_ne_zero (Nat.ne_zero_of_lt more)
        rw [findWith_of_own asked own]
        exact Task.settles_pure _
    · have less := remaining_cons_lt (FileTree.mem_questions stands known) asked
      obtain ⟨found, after, among, settles⟩ :=
        (ih _ (less.trans_le enough)).among stands followable known
          (List.Subset.refl _) (Nat.le_refl _)
      refine ⟨found, after, among.searched stands asked own, fun fuel more => ?_⟩
      obtain ⟨fuel, rfl⟩ := Nat.exists_eq_succ_of_ne_zero (Nat.ne_zero_of_lt more)
      rw [findWith_of_notOwn asked own]
      exact settles fuel (by omega)

/-! ## Finding an export -/

/-- Looking for an export comes to an end, and it finds declarations exactly when the module
provides the name.  With more fuel than the file tree calls for it finds the same. -/
theorem settles_findExport (stands : source.StandsIn tree)
    (followable : source.Followable tree root) (name : String) :
    ∃ found asked, Task.Settles tree (FromTree tree root) (findExport source name) (.ok found) ∧
      (∀ fuel, walkBound tree * walkBound tree < fuel →
        Task.Settles tree (FromTree tree root) (findWith fuel [] source name)
          (.ok (found, asked))) ∧
      (found.isSome ↔ Provides tree root source name) ∧
      ∀ declarations, found = some declarations →
        Chosen tree root [] source name declarations := by
  have enough : remaining (tree.questions name) [] ≤ walkBound tree * walkBound tree := by
    rw [remaining_nil]
    exact tree.card_questions_le name
  obtain ⟨found, asked, searched, settles⟩ := searchesEnd name _ [] source name stands followable
    (Finset.mem_insert_self _ _) enough
  refine ⟨found, asked, ?_, settles, ?_, searched.sound⟩
  · exact (settles_sizeBound tree root).bind
      ((settles _ (Nat.lt_succ_self _)).bind (Task.settles_pure _))
  · constructor
    · intro isSome
      obtain ⟨declarations, equal⟩ := Option.isSome_iff_exists.mp isSome
      exact (searched.sound declarations equal).yields.provides
    · intro provides
      cases found with
      | some declarations => rfl
      | none =>
        obtain ⟨others, yields⟩ := provides.exists_yields
        have inVain := yields.barring (searched.exhausted rfl) stands
        exact absurd searched.asked inVain.new

end Types
end ModuleAtlas
