import ModuleAtlas.Proofs.Text.Pieces
import ModuleAtlas.Resolve.Aliases

/-!
# The best pattern for a specifier

A pattern without a star is the best one for itself, wherever it stands.  Of the patterns with a
star that fit a specifier, those with the longest text before their first star are better than the
others, and the first one of them is the best.  It is found in one pass that carries the best
pattern with a star among those seen so far.
-/

namespace ModuleAtlas

theorem append_cons_eq_append_cons {α : Type} {a b : α} {before after others more : List α}
    (same : before ++ a :: after = others ++ b :: more) :
    (before = others ∧ a = b) ∨ (a ∈ others ∧ b ∈ after) ∨ (b ∈ before ∧ a ∈ more) := by
  rcases List.append_eq_append_iff.mp same with ⟨middle, rfl, equal⟩ | ⟨middle, rfl, equal⟩
  all_goals
    cases middle with
    | nil => simp_all
    | cons c middle => simp_all

namespace Resolve.Aliases

variable {patterns earlier rest : List (String × List String)} {specifier pattern : String}
  {targets : List String} {best : Best}

/-! ## What is best -/

/-- A pattern without a star that is the specifier itself. -/
def IsExact (specifier pattern : String) : Prop :=
  pattern = specifier ∧ Text.IsFreeOf '*' pattern

/-- A pattern with a star fits a specifier: what stands before its first star, a captured text and
what stands after the star make up the specifier. -/
def Fits (specifier pattern before captured : String) : Prop :=
  ∃ after, pattern = before ++ "*" ++ after ∧ Text.IsFreeOf '*' before ∧
    specifier = before ++ captured ++ after

/-- The first one of the patterns with a star that fit a specifier with the longest text before the
star, given by its targets, the captured text and the length of the text before the star. -/
inductive Longest (patterns : List (String × List String)) (specifier : String) : Best → Prop where
  | found {earlier later : List (String × List String)} {pattern before captured : String}
      {targets : List String}
      (listed : patterns = earlier ++ (pattern, targets) :: later)
      (fits : Fits specifier pattern before captured)
      (longer : ∀ entry ∈ earlier, ∀ start text, Fits specifier entry.1 start text →
        start.length < before.length)
      (longest : ∀ entry ∈ later, ∀ start text, Fits specifier entry.1 start text →
        start.length ≤ before.length) :
      Longest patterns specifier (some (targets, captured, before.length))
  | nothing
      (noneFits : ∀ entry ∈ patterns, ∀ start text, ¬Fits specifier entry.1 start text) :
      Longest patterns specifier none

/-- The targets of the best pattern for a specifier and the text that its star stands for. -/
inductive BestMatch (patterns : List (String × List String)) (specifier : String) :
    Option (List String × String) → Prop where
  | exact {earlier later : List (String × List String)} {pattern : String} {targets : List String}
      (listed : patterns = earlier ++ (pattern, targets) :: later)
      (isExact : IsExact specifier pattern)
      (isFirst : ∀ entry ∈ earlier, ¬IsExact specifier entry.1) :
      BestMatch patterns specifier (some (targets, ""))
  | wildcard {targets : List String} {captured : String} {length : Nat}
      (noneExact : ∀ entry ∈ patterns, ¬IsExact specifier entry.1)
      (longest : Longest patterns specifier (some (targets, captured, length))) :
      BestMatch patterns specifier (some (targets, captured))
  | nothing
      (noneExact : ∀ entry ∈ patterns, ¬IsExact specifier entry.1)
      (noneFits : Longest patterns specifier none) :
      BestMatch patterns specifier none

/-! ## What a pattern captures -/

theorem capture?_eq_some_iff {start finish text captured : List Char} :
    capture? start finish text = some captured ↔ text = start ++ captured ++ finish := by
  unfold capture?
  constructor
  · intro captures
    split at captures
    · rename_i passes
      simp only [ge_iff_le, Bool.and_eq_true, decide_eq_true_eq, List.isPrefixOf_iff_prefix,
        List.isSuffixOf_iff_suffix] at passes
      obtain ⟨⟨long, middle, rfl⟩, isSuffix⟩ := passes
      cases captures
      have enough : finish.length ≤ middle.length := by
        simp only [List.length_append] at long
        omega
      -- The suffix is long enough not to reach into the prefix.
      obtain ⟨inner, rfl⟩ :=
        List.suffix_of_suffix_length_le isSuffix (List.suffix_append start middle) enough
      simp
    · cases captures
  · rintro rfl
    have isSuffix : finish <:+ start ++ captured ++ finish := List.suffix_append _ finish
    rw [List.append_assoc] at isSuffix
    simp [List.isPrefixOf_iff_prefix, List.isSuffixOf_iff_suffix, isSuffix]

theorem not_fits_of_isFreeOf (free : Text.IsFreeOf '*' pattern) (before captured : String) :
    ¬Fits specifier pattern before captured := by
  rintro ⟨after, rfl, _, _⟩
  simp [Text.IsFreeOf] at free

variable {before captured : String}

theorem fits_iff_of_cut {start finish : List Char}
    (cut : Text.cutFirst? '*' pattern.toList = some (start, finish)) :
    Fits specifier pattern before captured ↔
      before.toList = start ∧ capture? start finish specifier.toList = some captured.toList := by
  rw [capture?_eq_some_iff]
  constructor
  · rintro ⟨after, rfl, free, rfl⟩
    have again : Text.cutFirst? '*' (before ++ "*" ++ after).toList =
        some (before.toList, after.toList) :=
      Text.cutFirst?_eq_some_iff.mpr ⟨by simp, free⟩
    rw [again] at cut
    cases cut
    simp
  · rintro ⟨rfl, split⟩
    obtain ⟨known, free⟩ := Text.cutFirst?_eq_some_iff.mp cut
    refine ⟨String.ofList finish, ?_, free, ?_⟩
    · rw [← String.toList_inj]
      simp [known]
    · rw [← String.toList_inj]
      simp [split]

theorem Fits.unique {start text : String} (fits : Fits specifier pattern before captured)
    (other : Fits specifier pattern start text) : before = start ∧ captured = text := by
  obtain ⟨after, listed, free, split⟩ := fits
  have cut : Text.cutFirst? '*' pattern.toList = some (before.toList, after.toList) :=
    Text.cutFirst?_eq_some_iff.mpr ⟨by simp [listed], free⟩
  obtain ⟨same, captures⟩ := (fits_iff_of_cut cut).mp other
  obtain ⟨_, again⟩ := (fits_iff_of_cut cut).mp ⟨after, listed, free, split⟩
  rw [captures] at again
  exact ⟨(String.toList_inj.mp same).symm, (String.toList_inj.mp (Option.some.inj again)).symm⟩

/-! ## One pattern more -/

theorem Longest.skip (longest : Longest earlier specifier best)
    (misfits : ∀ start text, ¬Fits specifier pattern start text) :
    Longest (earlier ++ [(pattern, targets)]) specifier best := by
  cases longest with
  | found listed fits longer longest =>
    refine .found (by simp [listed]; rfl) fits longer ?_
    refine List.forall_mem_append.mpr ⟨longest, List.forall_mem_singleton.mpr ?_⟩
    intro start text fits
    exact absurd fits (misfits start text)
  | nothing noneFits =>
    exact .nothing (List.forall_mem_append.mpr ⟨noneFits, List.forall_mem_singleton.mpr misfits⟩)

theorem Longest.replace (longest : Longest earlier specifier best)
    (fits : Fits specifier pattern before captured)
    (better : ∀ found, best = some found → found.2.2 < before.length) :
    Longest (earlier ++ [(pattern, targets)]) specifier
      (some (targets, captured, before.length)) := by
  refine .found rfl fits ?_ (by simp)
  intro entry member start text other
  cases longest with
  | nothing noneFits => exact absurd other (noneFits entry member start text)
  | @found before' after _ start' _ _ listed fits' longer longest =>
    have shorter : start'.length < before.length := better _ rfl
    subst listed
    rcases List.mem_append.mp member with previous | later
    · exact Nat.lt_trans (longer entry previous start text other) shorter
    · rcases List.mem_cons.mp later with rfl | later
      · rwa [(other.unique fits').1]
      · exact Nat.lt_of_le_of_lt (longest entry later start text other) shorter

theorem Longest.keep {found : List String × String × Nat}
    (longest : Longest earlier specifier (some found))
    (fits : Fits specifier pattern before captured) (notBetter : before.length ≤ found.2.2) :
    Longest (earlier ++ [(pattern, targets)]) specifier (some found) := by
  cases longest with
  | found listed fits' longer longest =>
    refine .found (by rw [listed, List.append_assoc, List.cons_append]) fits' longer ?_
    refine List.forall_mem_append.mpr ⟨longest, List.forall_mem_singleton.mpr ?_⟩
    intro start text other
    rwa [(other.unique fits).1]

/-! ## All patterns -/

/-- From the best pattern with a star before some patterns, the pass over these comes to the best
one of all. -/
theorem bestMatch_matchFrom (noneExact : ∀ entry ∈ earlier, ¬IsExact specifier entry.1)
    (longest : Longest earlier specifier best) :
    BestMatch (earlier ++ rest) specifier (matchFrom specifier best rest) := by
  induction rest generalizing earlier best with
  | nil =>
    rw [List.append_nil, matchFrom]
    cases best with
    | none => exact .nothing noneExact longest
    | some found => exact .wildcard noneExact longest
  | cons entry rest ih =>
    obtain ⟨pattern, targets⟩ := entry
    have onward : ∀ {next : Best}, ¬IsExact specifier pattern →
        Longest (earlier ++ [(pattern, targets)]) specifier next →
        BestMatch (earlier ++ (pattern, targets) :: rest) specifier
          (matchFrom specifier next rest) := by
      intro next notExact further
      rw [List.append_cons]
      refine ih ?_ further
      exact List.forall_mem_append.mpr ⟨noneExact, List.forall_mem_singleton.mpr notExact⟩
    unfold matchFrom
    cases cut : Text.cutFirst? '*' pattern.toList with
    | none =>
      have free : Text.IsFreeOf '*' pattern := Text.cutFirst?_eq_none_iff.mp cut
      dsimp only
      split
      · rename_i same
        exact .exact rfl ⟨eq_of_beq same, free⟩ noneExact
      · rename_i different
        refine onward (fun isExact => different (beq_iff_eq.mpr isExact.1)) ?_
        exact longest.skip (not_fits_of_isFreeOf free)
    | some parts =>
      obtain ⟨start, finish⟩ := parts
      have notExact : ¬IsExact specifier pattern := by
        rintro ⟨_, free⟩
        rw [Text.cutFirst?_eq_none_iff.mpr free] at cut
        cases cut
      dsimp only
      cases captures : capture? start finish specifier.toList with
      | none =>
        refine onward notExact (longest.skip fun before captured fits => ?_)
        rw [((fits_iff_of_cut cut).mp fits).2] at captures
        cases captures
      | some captured =>
        have fits : Fits specifier pattern (String.ofList start) (String.ofList captured) :=
          (fits_iff_of_cut cut).mpr (by simp [captures])
        have length : (String.ofList start).length = start.length := by simp
        dsimp only
        cases best with
        | none =>
          rw [if_pos rfl, ← length]
          exact onward notExact (longest.replace fits (by simp))
        | some found =>
          dsimp only
          split
          · rename_i better
            rw [← length] at better ⊢
            refine onward notExact (longest.replace fits ?_)
            rintro _ ⟨⟩
            exact of_decide_eq_true better
          · rename_i notBetter
            rw [← length] at notBetter
            refine onward notExact (longest.keep fits ?_)
            simpa using notBetter

/-! ## There is one best match only -/

theorem mem_of_listed {α : Type} {entries earlier later : List α} {entry : α}
    (listed : entries = earlier ++ entry :: later) :
    entry ∈ entries := by
  rw [listed]
  exact List.mem_append_cons_self

/-- There is one longest match at most. -/
theorem Longest.unique {other : Best} (longest : Longest patterns specifier best)
    (again : Longest patterns specifier other) :
    best = other := by
  cases longest with
  | nothing noneFits =>
    cases again with
    | nothing => rfl
    | found listed fits => exact absurd fits (noneFits _ (mem_of_listed listed) _ _)
  | found listed fits longer longest =>
    cases again with
    | nothing noneFits => exact absurd fits (noneFits _ (mem_of_listed listed) _ _)
    | found listed' fits' longer' longest' =>
      rcases append_cons_eq_append_cons (listed.symm.trans listed') with
        ⟨_, same⟩ | ⟨before, after⟩ | ⟨before, after⟩
      · cases same
        obtain ⟨rfl, rfl⟩ := fits.unique fits'
        rfl
      · have shorter := longer' _ before _ _ fits
        have longer := longest _ after _ _ fits'
        omega
      · have shorter := longer _ before _ _ fits'
        have longer := longest' _ after _ _ fits
        omega

/-- There is one best match at most. -/
theorem BestMatch.unique {found other : Option (List String × String)}
    (best : BestMatch patterns specifier found) (again : BestMatch patterns specifier other) :
    found = other := by
  cases best with
  | exact listed isExact isFirst =>
    cases again with
    | exact listed' isExact' isFirst' =>
      rcases append_cons_eq_append_cons (listed.symm.trans listed') with
        ⟨_, same⟩ | ⟨before, _⟩ | ⟨before, _⟩
      · cases same
        rfl
      · exact absurd isExact (isFirst' _ before)
      · exact absurd isExact' (isFirst _ before)
    | wildcard noneExact => exact absurd isExact (noneExact _ (mem_of_listed listed))
    | nothing noneExact => exact absurd isExact (noneExact _ (mem_of_listed listed))
  | wildcard noneExact longest =>
    cases again with
    | exact listed isExact => exact absurd isExact (noneExact _ (mem_of_listed listed))
    | wildcard _ longest' => cases longest.unique longest'; rfl
    | nothing _ noneFits => cases longest.unique noneFits
  | nothing noneExact noneFits =>
    cases again with
    | exact listed isExact => exact absurd isExact (noneExact _ (mem_of_listed listed))
    | wildcard _ longest => cases noneFits.unique longest
    | nothing => rfl

/-- A specifier is matched with the targets of the best pattern for it and the text that the star of
this pattern stands for, and with nothing when there is no pattern for it. -/
theorem matched_iff_bestMatch (aliases : Aliases) (specifier : String)
    (found : Option (List String × String)) :
    aliases.match? specifier = found ↔ BestMatch aliases.patterns specifier found := by
  have nothing : Longest [] specifier none := .nothing (by simp)
  have best : BestMatch aliases.patterns specifier (aliases.match? specifier) :=
    bestMatch_matchFrom (by simp) nothing
  constructor
  · rintro rfl
    exact best
  · exact best.unique

/-- The pattern without a star wins although it comes last; the other two are told apart by what
stands before their stars. -/
example : (⟨none, .ofRoot [], [("a/*", ["x"]), ("a/b*", ["y"]), ("a/bc", ["z"])]⟩ : Aliases).match?
      "a/bc" = some (["z"], "") := by
  decide

end Resolve.Aliases
end ModuleAtlas
