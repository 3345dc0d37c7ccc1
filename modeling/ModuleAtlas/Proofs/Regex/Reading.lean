import ModuleAtlas.Regex.Match

/-!
# What patterns read

The ways in which a pattern can read a text, whatever the order in which they are tried.  The
matcher goes through all of them: for a regular pattern, which neither looks around nor refers to
groups, it succeeds exactly when one of the ways is accepted.
-/

namespace ModuleAtlas
namespace Regex

variable {subject : Array Char}

namespace Pattern

/-- A way in which a pattern reads a text from one cursor to another. -/
inductive Reads (subject : Array Char) : Pattern → Cursor → Cursor → Prop where
  | empty {cursor : Cursor} : Reads subject .empty cursor cursor
  | one {set : CharSet} {cursor : Cursor} {c : Char}
      (here : subject[cursor.position]? = some c) (member : set.contains c = true) :
      Reads subject (.one set) cursor { cursor with position := cursor.position + 1 }
  | anchor {condition : Anchor} {cursor : Cursor}
      (holds : condition.holds subject cursor.position = true) :
      Reads subject (.anchor condition) cursor cursor
  | append {first second : Pattern} {start middle finish : Cursor}
      (before : Reads subject first start middle) (after : Reads subject second middle finish) :
      Reads subject (.append first second) start finish
  | eitherFirst {first second : Pattern} {start finish : Cursor}
      (way : Reads subject first start finish) : Reads subject (.either first second) start finish
  | eitherSecond {first second : Pattern} {start finish : Cursor}
      (way : Reads subject second start finish) : Reads subject (.either first second) start finish
  | stop {body : Pattern} {most : Option Nat} {mode : Mode} {cursor : Cursor} :
      Reads subject (.loop body 0 most mode) cursor cursor
  | required {body : Pattern} {least : Nat} {most : Option Nat} {mode : Mode}
      {start middle finish : Cursor} (round : Reads subject body start middle)
      (rounds : Reads subject (.loop body least (most.map (· - 1)) mode) middle finish) :
      Reads subject (.loop body (least + 1) most mode) start finish
  | optional {body : Pattern} {most : Option Nat} {mode : Mode} {start middle finish : Cursor}
      (allowed : most ≠ some 0) (round : Reads subject body start middle)
      (rounds : Reads subject (.loop body 0 (most.map (· - 1)) mode) middle finish) :
      Reads subject (.loop body 0 most mode) start finish
  | group {index : Nat} {body : Pattern} {start finish : Cursor}
      (way : Reads subject body start finish) :
      Reads subject (.group index body) start
        { finish with spans := (index, start.position, finish.position) :: finish.spans }

/-- A pattern that neither looks around nor refers to groups, gives back what it repeats, and
repeats only what reads at least one character. -/
def isRegular : Pattern → Bool
  | .empty | .one _ | .anchor _ => true
  | .append first second | .either first second => first.isRegular && second.isRegular
  | .loop body _ _ mode =>
    body.isRegular && mode != .possessive && decide (0 < (body.widths fun _ => (0, none)).1)
  | .group _ body => body.isRegular
  | .sameAs _ _ | .ifMatched _ _ _ | .ahead _ _ | .behind _ _ _ => false

/-! ## Where reading leads -/

/-- Reading goes on by the least width at least. -/
theorem Reads.widths_le
    {pattern : Pattern} {start finish : Cursor} (reads : Reads subject pattern start finish)
    (groupWidths : Nat → Nat × Option Nat) :
    start.position + (pattern.widths groupWidths).1 ≤ finish.position := by
  induction reads with
  | empty | one | anchor | stop => simp [widths]
  | append before after beforeGoes afterGoes =>
    simp only [widths]
    omega
  | eitherFirst way goes =>
    simp only [widths]
    omega
  | eitherSecond way goes =>
    simp only [widths]
    omega
  | required round rounds roundGoes roundsGo =>
    simp only [widths] at roundsGo ⊢
    rw [Nat.mul_succ]
    omega
  | optional allowed round rounds roundGoes roundsGo =>
    simp only [widths, Nat.mul_zero] at roundsGo ⊢
    omega
  | group way goes => exact goes

/-- Reading does not go on beyond the end. -/
theorem Reads.position_le
    {pattern : Pattern} {start finish : Cursor} (reads : Reads subject pattern start finish) :
    finish.position ≤ max start.position subject.size := by
  induction reads with
  | empty | anchor | stop => exact Nat.le_max_left _ _
  | one here member =>
    obtain ⟨inside, -⟩ := Array.getElem?_eq_some_iff.mp here
    simp only
    omega
  | append before after beforeEnds afterEnds => omega
  | eitherFirst way ends => exact ends
  | eitherSecond way ends => exact ends
  | required round rounds roundEnds roundsEnd => omega
  | optional allowed round rounds roundEnds roundsEnd => omega
  | group way ends => exact ends

end Pattern

/-! ## The matcher finds only ways to read -/

open Pattern (Reads)

variable {step : Cursor → (Cursor → Option Cursor) → Option Cursor} {lazy : Bool}
  {fuel position : Nat} {most last : Option Nat} {cursor start finish : Cursor}
  {resume : Cursor → Option Cursor} {pattern : Pattern} {patterns : List Pattern}
  {text : List Char}

/-- A loop that finds a match has gone round as the relation has it. -/
theorem exists_reads_of_iterate {body : Pattern}
    (sound : ∀ cursor resume found, step cursor resume = some found →
      ∃ next, Reads subject body cursor next ∧ resume next = some found) (mode : Mode)
    {least : Nat} {found : Cursor}
    (ran : iterate step lazy fuel least most last cursor resume = some found) :
    ∃ next, Reads subject (.loop body least most mode) cursor next ∧ resume next = some found := by
  induction fuel generalizing least most last cursor with
  | zero => cases ran
  | succ fuel ih =>
    cases least with
    | succ required =>
      obtain ⟨middle, round, ranOn⟩ := sound _ _ _ ran
      obtain ⟨next, rounds, accepted⟩ := ih ranOn
      exact ⟨next, .required round rounds, accepted⟩
    | zero =>
      have goesOn :
          (if most = some 0 ∨ last = some cursor.position then none
            else step cursor fun next =>
              iterate step lazy fuel 0 (most.map (· - 1)) (some cursor.position) next resume) =
            some found →
          ∃ next, Reads subject (.loop body 0 most mode) cursor next ∧
            resume next = some found := by
        intro more
        split at more
        · cases more
        · rename_i allowed
          obtain ⟨middle, round, ranOn⟩ := sound _ _ _ more
          obtain ⟨next, rounds, accepted⟩ := ih ranOn
          exact ⟨next, .optional (not_or.mp allowed).1 round rounds, accepted⟩
      rw [iterate] at ran
      simp only at ran
      cases lazy with
      | true =>
        simp only [if_true] at ran
        split at ran
        · rename_i stopped accepted
          exact ⟨cursor, .stop, accepted.trans ran⟩
        · exact goesOn ran
      | false =>
        simp only [Bool.false_eq_true, if_false] at ran
        split at ran
        · rename_i further more
          exact goesOn (more.trans ran)
        · exact ⟨cursor, .stop, ran⟩

/-- Where the matcher succeeds, the pattern reads up to a cursor that is accepted. -/
theorem exists_reads_of_match? (regular : pattern.isRegular = true) {found : Cursor}
    (matched : pattern.match? subject cursor resume = some found) :
    ∃ next, Reads subject pattern cursor next ∧ resume next = some found := by
  induction pattern generalizing cursor resume found with
  | empty => exact ⟨cursor, .empty, matched⟩
  | one set =>
    rw [Pattern.match?] at matched
    split at matched
    · rename_i c here
      split at matched
      · rename_i member
        exact ⟨_, .one here member, matched⟩
      · cases matched
    · cases matched
  | anchor condition =>
    rw [Pattern.match?] at matched
    split at matched
    · rename_i holds
      exact ⟨cursor, .anchor holds, matched⟩
    · cases matched
  | append first second firstReads secondReads =>
    obtain ⟨firstRegular, secondRegular⟩ := Bool.and_eq_true_iff.mp regular
    obtain ⟨middle, before, matchedOn⟩ := firstReads firstRegular matched
    obtain ⟨next, after, accepted⟩ := secondReads secondRegular matchedOn
    exact ⟨next, .append before after, accepted⟩
  | either first second firstReads secondReads =>
    obtain ⟨firstRegular, secondRegular⟩ := Bool.and_eq_true_iff.mp regular
    rw [Pattern.match?] at matched
    split at matched
    · rename_i other firstMatched
      obtain ⟨next, way, accepted⟩ := firstReads firstRegular firstMatched
      exact ⟨next, .eitherFirst way, accepted.trans matched⟩
    · obtain ⟨next, way, accepted⟩ := secondReads secondRegular matched
      exact ⟨next, .eitherSecond way, accepted⟩
  | loop body least most mode bodyReads =>
    simp only [Pattern.isRegular, Bool.and_eq_true, bne_iff_ne] at regular
    obtain ⟨⟨bodyRegular, notPossessive⟩, -⟩ := regular
    have sound : ∀ cursor resume found, body.match? subject cursor resume = some found →
        ∃ next, Reads subject body cursor next ∧ resume next = some found :=
      fun _ _ _ => bodyReads bodyRegular
    cases mode with
    | greedy => exact exists_reads_of_iterate sound .greedy matched
    | lazy => exact exists_reads_of_iterate sound .lazy matched
    | possessive => exact absurd rfl notPossessive
  | group index body bodyReads =>
    obtain ⟨next, way, accepted⟩ := bodyReads regular matched
    exact ⟨_, .group way, accepted⟩
  | sameAs | ifMatched | ahead | behind => cases regular

/-! ## The matcher finds all ways to read -/

/-- A loop with no rounds to go succeeds if it may stop. -/
theorem isSome_iterate_of_accepted (accepted : (resume cursor).isSome) :
    (iterate step lazy (fuel + 1) 0 most last cursor resume).isSome := by
  rw [iterate]
  simp only
  cases lazy with
  | true =>
    simp only [if_true]
    split
    · rfl
    · rename_i refused
      rw [refused] at accepted
      cases accepted
  | false =>
    simp only [Bool.false_eq_true, if_false]
    split
    · rfl
    · exact accepted

/-- A loop succeeds if one more round is allowed and succeeds. -/
theorem isSome_iterate_of_round (allowed : most ≠ some 0) (moved : last ≠ some cursor.position)
    (more : (step cursor fun next =>
      iterate step lazy fuel 0 (most.map (· - 1)) (some cursor.position) next resume).isSome) :
    (iterate step lazy (fuel + 1) 0 most last cursor resume).isSome := by
  have goes : ¬(most = some 0 ∨ last = some cursor.position) := not_or.mpr ⟨allowed, moved⟩
  rw [iterate]
  simp only [if_neg goes]
  cases lazy with
  | true =>
    simp only [if_true]
    split
    · rfl
    · exact more
  | false =>
    simp only [Bool.false_eq_true, if_false]
    split
    · rfl
    · rename_i refused
      rw [refused] at more
      cases more

/-- A repetition comes to an accepted cursor that its rounds lead to: there are rounds enough for
the required ones, and every further one moves on. -/
theorem isSome_iterate_of_reads {body : Pattern}
    (complete : ∀ cursor next resume, Reads subject body cursor next → (resume next).isSome →
      (step cursor resume).isSome)
    (moves : ∀ cursor next, Reads subject body cursor next → cursor.position < next.position)
    (mode : Mode) {least : Nat} {next : Cursor}
    (enough : least + (subject.size - cursor.position) < fuel)
    (moved : last ≠ some cursor.position)
    (reads : Reads subject (.loop body least most mode) cursor next)
    (accepted : (resume next).isSome) :
    (iterate step lazy fuel least most last cursor resume).isSome := by
  induction fuel generalizing least most last cursor with
  | zero => exact absurd enough (Nat.not_lt_zero _)
  | succ fuel ih =>
    cases reads with
    | required round rounds =>
      rename_i least middle
      refine complete cursor middle _ round ?_
      have ahead := moves cursor middle round
      refine ih ?_ (by simp) rounds
      omega
    | stop => exact isSome_iterate_of_accepted accepted
    | optional allowed round rounds =>
      rename_i middle
      have ahead := moves cursor middle round
      have inside := round.position_le
      have more : (step cursor fun next =>
          iterate step lazy fuel 0 (most.map (· - 1)) (some cursor.position) next
            resume).isSome := by
        refine complete cursor middle _ round ?_
        refine ih ?_ ?_ rounds
        · omega
        · intro same
          have := Option.some.inj same
          omega
      exact isSome_iterate_of_round allowed moved more

/-- Where a regular pattern reads up to a cursor that is accepted, the matcher succeeds. -/
theorem isSome_match?_of_reads (regular : pattern.isRegular = true) {next : Cursor}
    (reads : Reads subject pattern cursor next) (accepted : (resume next).isSome) :
    (pattern.match? subject cursor resume).isSome := by
  induction pattern generalizing cursor next resume with
  | empty =>
    cases reads
    exact accepted
  | one set =>
    cases reads with
    | one here member =>
      rw [Pattern.match?, here]
      simp only [member, if_true]
      exact accepted
  | anchor condition =>
    cases reads with
    | anchor holds =>
      rw [Pattern.match?, if_pos holds]
      exact accepted
  | append first second firstMatches secondMatches =>
    obtain ⟨firstRegular, secondRegular⟩ := Bool.and_eq_true_iff.mp regular
    cases reads with
    | append before after =>
      exact firstMatches firstRegular before (secondMatches secondRegular after accepted)
  | either first second firstMatches secondMatches =>
    obtain ⟨firstRegular, secondRegular⟩ := Bool.and_eq_true_iff.mp regular
    rw [Pattern.match?]
    split
    · rfl
    · rename_i refused
      cases reads with
      | eitherFirst way =>
        have found := firstMatches firstRegular way accepted
        rw [refused] at found
        cases found
      | eitherSecond way => exact secondMatches secondRegular way accepted
  | loop body least most mode bodyMatches =>
    simp only [Pattern.isRegular, Bool.and_eq_true, bne_iff_ne, decide_eq_true_eq] at regular
    obtain ⟨⟨bodyRegular, notPossessive⟩, wide⟩ := regular
    have complete : ∀ cursor next resume, Reads subject body cursor next →
        (resume next).isSome → (body.match? subject cursor resume).isSome :=
      fun _ _ _ => bodyMatches bodyRegular
    have moves : ∀ cursor next, Reads subject body cursor next →
        cursor.position < next.position := by
      intro cursor next way
      have goes := way.widths_le fun _ => (0, none)
      omega
    cases mode with
    | greedy =>
      exact isSome_iterate_of_reads complete moves .greedy (by omega) (by simp) reads accepted
    | lazy =>
      exact isSome_iterate_of_reads complete moves .lazy (by omega) (by simp) reads accepted
    | possessive => exact absurd rfl notPossessive
  | group index body bodyMatches =>
    cases reads with
    | group way => exact bodyMatches regular way accepted
  | sameAs | ifMatched | ahead | behind => cases regular

/-! ## Searching -/

/-- The search finds a match at a place just when there is one. -/
theorem isSome_matchAt?_iff (regular : pattern.isRegular = true) :
    (pattern.matchAt? subject position false).isSome = true ↔
      ∃ next, Reads subject pattern ⟨position, []⟩ next := by
  rw [Pattern.matchAt?, Option.isSome_map]
  simp only [Bool.false_and, Bool.false_eq_true, if_false]
  constructor
  · intro matched
    obtain ⟨found, isFound⟩ := Option.isSome_iff_exists.mp matched
    obtain ⟨next, reads, -⟩ := exists_reads_of_match? regular isFound
    exact ⟨next, reads⟩
  · rintro ⟨next, reads⟩
    exact isSome_match?_of_reads regular reads rfl

/-- The search finds a match just when there is one at one of the places it tries. -/
theorem isSome_searchFrom?_iff (regular : pattern.isRegular = true) {count : Nat} :
    (pattern.searchFrom? subject count position false).isSome = true ↔
      ∃ start, position ≤ start ∧ start < position + count ∧
        ∃ next, Reads subject pattern ⟨start, []⟩ next := by
  induction count generalizing position with
  | zero =>
    constructor
    · intro found
      cases found
    · rintro ⟨start, after, before, -⟩
      omega
  | succ count ih =>
    rw [Pattern.searchFrom?]
    split
    · rename_i found here
      have reads : ∃ next, Reads subject pattern ⟨position, []⟩ next :=
        (isSome_matchAt?_iff regular).mp (Option.isSome_iff_exists.mpr ⟨found, here⟩)
      exact ⟨fun _ => ⟨position, Nat.le_refl _, by omega, reads⟩, fun _ => rfl⟩
    · rename_i nowhere
      have notHere : ¬∃ next, Reads subject pattern ⟨position, []⟩ next := by
        rw [← isSome_matchAt?_iff regular, nowhere]
        simp
      rw [ih]
      constructor
      · rintro ⟨start, after, before, reads⟩
        exact ⟨start, by omega, by omega, reads⟩
      · rintro ⟨start, after, before, reads⟩
        have apart : start ≠ position := by
          rintro rfl
          exact notHere reads
        exact ⟨start, by omega, by omega, reads⟩

/-! ## Sequences and fixed texts -/

/-- What holds of a sequence because it holds of each part. -/
theorem holds_sequence {test : Pattern → Bool} (empty : test .empty = true)
    (append : ∀ first second, test (.append first second) = (test first && test second))
    (each : ∀ pattern ∈ patterns, test pattern = true) :
    test (Pattern.sequence patterns) = true := by
  induction patterns with
  | nil => exact empty
  | cons first rest ih =>
    have firstHolds := each first List.mem_cons_self
    have restHolds := ih fun pattern member =>
      each pattern (List.mem_cons_of_mem _ member)
    cases rest with
    | nil => exact firstHolds
    | cons second rest =>
      exact (append _ _).trans (Bool.and_eq_true_iff.mpr ⟨firstHolds, restHolds⟩)

theorem isRegular_sequence (each : ∀ pattern ∈ patterns, pattern.isRegular = true) :
    (Pattern.sequence patterns).isRegular = true :=
  holds_sequence rfl (fun _ _ => rfl) each

theorem reads_sequence_cons {first : Pattern} {rest : List Pattern} :
    Reads subject (Pattern.sequence (first :: rest)) start finish ↔
      ∃ middle, Reads subject first start middle ∧
        Reads subject (Pattern.sequence rest) middle finish := by
  cases rest with
  | nil =>
    constructor
    · exact fun reads => ⟨finish, reads, .empty⟩
    · rintro ⟨middle, reads, ends⟩
      cases ends
      exact reads
  | cons second rest =>
    constructor
    · rintro ⟨⟩
      rename_i middle before after
      exact ⟨middle, before, after⟩
    · rintro ⟨middle, before, after⟩
      exact .append before after

theorem reads_single {c : Char} :
    Reads subject (.one (.single c)) start finish ↔
      subject[start.position]? = some c ∧
        finish = { start with position := start.position + 1 } := by
  constructor
  · intro reads
    cases reads with
    | one here member =>
      rename_i found
      have between : c.toNat ≤ found.toNat ∧ found.toNat ≤ c.toNat := by
        simpa [CharSet.contains, CharSet.single, Atom.covers, isBetween] using member
      have same : found = c := Char.toNat_inj.mp (Nat.le_antisymm between.2 between.1)
      exact ⟨same ▸ here, rfl⟩
  · rintro ⟨here, rfl⟩
    refine .one here ?_
    simp [CharSet.contains, CharSet.single, Atom.covers, isBetween]

theorem cons_prefix_drop_iff {c : Char} {whole : List Char} :
    c :: text <+: whole.drop position ↔
      whole[position]? = some c ∧ text <+: whole.drop (position + 1) := by
  rw [← List.head?_drop, ← List.tail_drop]
  cases whole.drop position with
  | nil => simp
  | cons d rest => simp [List.cons_prefix_cons, eq_comm]

/-- A fixed text is read where it stands. -/
theorem reads_literal_append {rest : List Pattern} :
    Reads subject (Pattern.sequence (text.map (fun c => .one (.single c)) ++ rest)) start finish ↔
      text <+: subject.toList.drop start.position ∧
        Reads subject (Pattern.sequence rest)
          { start with position := start.position + text.length } finish := by
  induction text generalizing start with
  | nil => simp
  | cons c text ih =>
    rw [List.map_cons, List.cons_append, reads_sequence_cons, cons_prefix_drop_iff,
      Array.getElem?_toList, List.length_cons, Nat.add_comm text.length, ← Nat.add_assoc]
    constructor
    · rintro ⟨middle, first, others⟩
      obtain ⟨here, rfl⟩ := reads_single.mp first
      obtain ⟨stands, goesOn⟩ := ih.mp others
      exact ⟨⟨here, stands⟩, goesOn⟩
    · rintro ⟨⟨here, stands⟩, goesOn⟩
      exact ⟨_, reads_single.mpr ⟨here, rfl⟩, ih.mpr ⟨stands, goesOn⟩⟩

theorem append_prefix_drop_iff {more whole : List Char} :
    text ++ more <+: whole.drop position ↔
      text <+: whole.drop position ∧ more <+: whole.drop (position + text.length) := by
  induction text generalizing position with
  | nil => simp
  | cons c text ih =>
    rw [List.cons_append, cons_prefix_drop_iff, cons_prefix_drop_iff, ih,
      List.length_cons, Nat.add_right_comm, ← Nat.add_assoc, and_assoc]

/-- A run of characters of a set can be read as far as one likes. -/
theorem reads_run {set : CharSet} (each : ∀ c ∈ text, set.contains c = true) (mode : Mode)
    (stands : text <+: subject.toList.drop cursor.position) :
    Reads subject (.loop (.one set) 0 none mode) cursor
      { cursor with position := cursor.position + text.length } := by
  induction text generalizing cursor with
  | nil => exact .stop
  | cons c text ih =>
    obtain ⟨here, further⟩ := cons_prefix_drop_iff.mp stands
    rw [Array.getElem?_toList] at here
    let next : Cursor := { cursor with position := cursor.position + 1 }
    have rounds : Reads subject (.loop (.one set) 0 none mode) next
        { next with position := next.position + text.length } :=
      ih (fun other member => each other (by simp [member])) further
    rw [List.length_cons, Nat.add_comm text.length, ← Nat.add_assoc]
    exact .optional (by simp) (.one here (each c List.mem_cons_self)) rounds

/-- A run of characters of a set reads a text of such characters, of the least length at least. -/
theorem exists_text_of_run {set : CharSet} {least : Nat} {mode : Mode} {next : Cursor}
    (reads : Reads subject (.loop (.one set) least none mode) cursor next) :
    ∃ text, (∀ c ∈ text, set.contains c = true) ∧ least ≤ text.length ∧
      text <+: subject.toList.drop cursor.position ∧
        next = { cursor with position := cursor.position + text.length } := by
  generalize shape : Pattern.loop (.one set) least none mode = pattern at reads
  have goesOn : ∀ {least : Nat} {start middle finish : Cursor} {text : List Char},
      Reads subject (.one set) start middle →
      ((∀ c ∈ text, set.contains c = true) ∧ least ≤ text.length ∧
        text <+: subject.toList.drop middle.position ∧
          finish = { middle with position := middle.position + text.length }) →
      ∃ c, (∀ other ∈ c :: text, set.contains other = true) ∧ least + 1 ≤ (c :: text).length ∧
        c :: text <+: subject.toList.drop start.position ∧
          finish = { start with position := start.position + (c :: text).length } := by
    rintro least start middle finish text one ⟨each, enough, stands, rfl⟩
    cases one with
    | @one _ _ c here member =>
      refine ⟨c, by simpa using ⟨member, each⟩, Nat.succ_le_succ enough,
        cons_prefix_drop_iff.mpr ⟨by rwa [Array.getElem?_toList], stands⟩, ?_⟩
      simp only [List.length_cons, Cursor.mk.injEq, and_true]
      omega
  induction reads generalizing least with
  | stop =>
    cases shape
    exact ⟨[], nofun, Nat.zero_le _, List.nil_prefix, rfl⟩
  | required round rounds _ ih =>
    cases shape
    obtain ⟨text, known⟩ := ih rfl
    obtain ⟨c, known⟩ := goesOn round known
    exact ⟨c :: text, known⟩
  | optional _ round rounds _ ih =>
    cases shape
    obtain ⟨text, known⟩ := ih rfl
    obtain ⟨c, each, -, known⟩ := goesOn round known
    exact ⟨c :: text, each, Nat.zero_le _, known⟩
  | empty | one | anchor | append | eitherFirst | eitherSecond | group => cases shape

/-- What one sequence and then another reads, both read one after the other. -/
theorem reads_sequence_append {first second : List Pattern} :
    Reads subject (Pattern.sequence (first ++ second)) start finish ↔
      ∃ middle, Reads subject (Pattern.sequence first) start middle ∧
        Reads subject (Pattern.sequence second) middle finish := by
  induction first generalizing start with
  | nil =>
    constructor
    · exact fun reads => ⟨start, .empty, reads⟩
    · rintro ⟨middle, empty, reads⟩
      cases empty
      exact reads
  | cons pattern first ih =>
    rw [List.cons_append, reads_sequence_cons]
    constructor
    · rintro ⟨next, here, others⟩
      obtain ⟨middle, before, after⟩ := ih.mp others
      exact ⟨middle, reads_sequence_cons.mpr ⟨next, here, before⟩, after⟩
    · rintro ⟨middle, before, after⟩
      obtain ⟨next, here, others⟩ := reads_sequence_cons.mp before
      exact ⟨next, here, ih.mpr ⟨middle, others, after⟩⟩

/-! ## Longer texts -/

/-- A pattern that asks of a text for nothing but what it reads, and for its start. -/
def Pattern.isLocal : Pattern → Bool
  | .empty | .one _ => true
  | .anchor condition => condition == .textStart
  | .append first second | .either first second => first.isLocal && second.isLocal
  | .loop body _ _ _ => body.isLocal
  | .group _ body => body.isLocal
  | .sameAs _ _ | .ifMatched _ _ _ | .ahead _ _ | .behind _ _ _ => false

theorem isLocal_sequence (each : ∀ pattern ∈ patterns, pattern.isLocal = true) :
    (Pattern.sequence patterns).isLocal = true :=
  holds_sequence rfl (fun _ _ => rfl) each

/-- What a local pattern reads in a text, it reads in every text that starts with this one. -/
theorem Pattern.Reads.of_longer {longer : Array Char} (begins : subject.toList <+: longer.toList)
    (isLocal : pattern.isLocal = true) (reads : Reads subject pattern start finish) :
    Reads longer pattern start finish := by
  induction reads with
  | empty => exact .empty
  | @one set cursor c here member =>
    refine .one ?_ member
    obtain ⟨rest, whole⟩ := begins
    rw [← Array.getElem?_toList] at here ⊢
    rw [← whole]
    exact List.getElem?_append_left (List.getElem?_eq_some_iff.mp here).1 ▸ here
  | @anchor condition cursor holds =>
    obtain rfl : condition = .textStart := eq_of_beq isLocal
    exact .anchor holds
  | append before after beforeGoes afterGoes =>
    obtain ⟨firstLocal, secondLocal⟩ := Bool.and_eq_true_iff.mp isLocal
    exact .append (beforeGoes firstLocal) (afterGoes secondLocal)
  | eitherFirst way goes => exact .eitherFirst (goes (Bool.and_eq_true_iff.mp isLocal).1)
  | eitherSecond way goes => exact .eitherSecond (goes (Bool.and_eq_true_iff.mp isLocal).2)
  | stop => exact .stop
  | required round rounds roundGoes roundsGo =>
    exact .required (roundGoes isLocal) (roundsGo isLocal)
  | optional allowed round rounds roundGoes roundsGo =>
    exact .optional allowed (roundGoes isLocal) (roundsGo isLocal)
  | group way goes => exact .group (goes isLocal)

end Regex
end ModuleAtlas
