import Mathlib.Data.List.TakeWhile
import ModuleAtlas.Proofs.Ignore.Collected

/-!
# Lines that act on all of a directory

A line without sets that matches a directory matches all that lies in the directory.  Nothing else
in a line reads a slash but the slashes that it is cut at, so a match that ends with the way to the
directory ends with the slash that closes this way, or behind it with a last name that is all stars;
and such a name reads the next name as well.  So where no line takes anything back and none has a
set, all that lies in an ignored directory is ignored.
-/

namespace ModuleAtlas
namespace Ignore
namespace Matcher

open Regex (Pattern Cursor)
open Regex.Pattern (Reads)

/-! ## Segments without sets -/

/-- A part that reads no slash because it is no set. -/
inductive Part.IsSimple : Part → Prop where
  | character {c : Char} (different : c ≠ '/') : IsSimple (.character c)
  | anyText : IsSimple .anyText
  | anyCharacter : IsSimple .anyCharacter

/-- A segment of simple parts. -/
def Segment.IsSimple (segment : Segment) : Prop :=
  ∀ found, segment = .name found → ∀ part ∈ found, part.IsSimple

theorem simple_of_map_cons
    {ε : Type} {outcome : Except ε (Option (List Part))} {first : Part} {found : List Part}
    (firstSimple : first.IsSimple)
    (others : ∀ rest, outcome = .ok (some rest) → ∀ part ∈ rest, part.IsSimple)
    (mapped : outcome.map (·.map (first :: ·)) = .ok (some found)) :
    (∀ part ∈ found, part.IsSimple) ∧ found ≠ [] := by
  rcases outcome with fault | none | rest
  · cases mapped
  · cases mapped
  · cases mapped
    exact ⟨List.forall_mem_cons.mpr ⟨firstSimple, others rest rfl⟩, List.cons_ne_nil _ _⟩

/-- A text without sets between slashes is cut into simple parts, at least one unless it is empty.
-/
theorem simple_of_parts {fuel : Nat} {chars : List Char} {found : List Part}
    (enough : chars.length < fuel) (cut : parts fuel chars = .ok (some found))
    (noSet : '[' ∉ chars) (noSlash : '/' ∉ chars) :
    (∀ part ∈ found, part.IsSimple) ∧ (chars ≠ [] → found ≠ []) := by
  fun_induction parts fuel chars generalizing found with
  | case1 => simp at enough
  | case2 =>
    cases cut
    simp
  | case3 => cases cut
  | case4 fuel andThen escaped rest =>
    rename_i ih
    simp only [List.mem_cons, List.length_cons, not_or] at enough noSet noSlash
    have simple := simple_of_map_cons (.character (Ne.symm noSlash.2.1)) (fun _ known =>
      (ih rest (by omega) known noSet.2.2 noSlash.2.2).1) cut
    exact simple.imp_right fun some _ => some
  | case5 fuel rest andThen =>
    rename_i ih
    simp only [List.mem_cons, List.length_cons, not_or] at enough noSet noSlash
    have simple := simple_of_map_cons .anyText (fun _ known =>
      (ih rest (by omega) known noSet.2 noSlash.2).1) cut
    exact simple.imp_right fun some _ => some
  | case6 fuel rest andThen =>
    rename_i ih
    simp only [List.mem_cons, List.length_cons, not_or] at enough noSet noSlash
    have simple := simple_of_map_cons .anyCharacter (fun _ known =>
      (ih rest (by omega) known noSet.2 noSlash.2).1) cut
    exact simple.imp_right fun some _ => some
  | case7 => cases cut
  | case8 => exact absurd List.mem_cons_self noSet
  | case9 fuel rest andThen c =>
    rename_i ih
    simp only [List.mem_cons, List.length_cons, not_or] at enough noSet noSlash
    have simple := simple_of_map_cons (.character (Ne.symm noSlash.1)) (fun _ known =>
      (ih rest (by omega) known noSet.2 noSlash.2).1) cut
    exact simple.imp_right fun some _ => some

/-! ## What simple names read -/

theorem notSlash_contains {c : Char} :
    Regex.CharSet.contains ⟨true, [.range '/' '/']⟩ c = true ↔ c ≠ '/' := by
  have between : Regex.isBetween '/' '/' c = true ↔ c = '/' := by
    rw [Regex.isBetween, Bool.and_eq_true, decide_eq_true_eq, decide_eq_true_eq]
    constructor
    · rintro ⟨low, high⟩
      exact Char.toNat_inj.mp (Nat.le_antisymm high low)
    · rintro rfl
      exact ⟨Nat.le_refl _, Nat.le_refl _⟩
  simp only [Regex.CharSet.contains, List.any_cons, List.any_nil, Regex.Atom.covers, Bool.or_false,
    bne_iff_ne, ne_eq, Bool.not_eq_true, ← between]

/-- What reads anything but slashes reads nothing or ends behind something else. -/
theorem not_slash_of_reads_loop
    {subject : Array Char} {least : Nat} {most : Option Nat} {mode : Regex.Mode}
    {start finish : Cursor} (reads : Reads subject (.loop notSlash least most mode) start finish) :
    finish = start ∨ subject[finish.position - 1]? ≠ some '/' := by
  generalize looped : Pattern.loop notSlash least most mode = pattern at reads
  induction reads generalizing least most with
  | empty | one | anchor | append | eitherFirst | eitherSecond | group => cases looped
  | stop => exact .inl rfl
  | required round rounds _ ih =>
    cases looped
    right
    rcases ih rfl with rfl | ends
    · cases round with
      | one here member =>
        rw [Nat.add_sub_cancel, here]
        simpa using notSlash_contains.mp member
    · exact ends
  | optional allowed round rounds _ ih =>
    cases looped
    right
    rcases ih rfl with rfl | ends
    · cases round with
      | one here member =>
        rw [Nat.add_sub_cancel, here]
        simpa using notSlash_contains.mp member
    · exact ends

/-- What closes the expression of a line: a slash, or the end of the text. -/
def ending : Pattern := .either directoryMark (.anchor .lastLineEnd)

theorem OfBody.isLocal {pattern : Pattern} (ofBody : OfBody pattern) : pattern.isLocal = true := by
  obtain ⟨_, rfl⟩ | ⟨_, rfl⟩ := ofBody <;> rfl

section

variable {directory rest : List Char} {start finish : Cursor}

/-- The text of the way to a directory, with the slash that closes it. -/
def wayTo (directory : List Char) : Array Char := (directory ++ ['/']).toArray

/-- The text of the way to what lies in a directory. -/
def wayBelow (directory rest : List Char) : Array Char := (directory ++ '/' :: rest).toArray

theorem wayTo_begins : (wayTo directory).toList <+: (wayBelow directory rest).toList :=
  ⟨rest, by simp [wayTo, wayBelow]⟩

theorem getElem?_wayTo_size : (wayTo directory)[(wayTo directory).size - 1]? = some '/' := by
  simp [wayTo]

/-- What is closed on the way to a directory is closed on the way below it too, unless it comes to
the end of the text. -/
theorem reads_ending_or_end
    (rest : List Char) (reads : Reads (wayTo directory) ending start finish) :
    (∃ next, Reads (wayBelow directory rest) ending start next) ∨
      start.position = (wayTo directory).size := by
  cases reads with
  | eitherFirst way => exact .inl ⟨finish, .eitherFirst (way.of_longer wayTo_begins rfl)⟩
  | eitherSecond way =>
    right
    cases way with
    | anchor holds =>
      -- It also holds before a last line feed, but the way ends with a slash.
      rw [Regex.Anchor.holds, Bool.or_eq_true, Bool.and_eq_true, beq_iff_eq, beq_iff_eq] at holds
      rcases holds with atEnd | ⟨before, feed⟩
      · exact atEnd
      · have position : start.position = (wayTo directory).size - 1 := by omega
        rw [position, getElem?_wayTo_size] at feed
        exact absurd feed (by decide)

/-- What is read first on the way to a directory is read below it too, so only what is read behind
it matters. -/
theorem exists_reads_append (first : List Pattern) {more : List Pattern}
    (isLocal : ∀ pattern ∈ first, pattern.isLocal = true)
    (goesOn : ∀ middle, Reads (wayTo directory) (Pattern.sequence more) middle finish →
      ∃ next, Reads (wayBelow directory rest) (Pattern.sequence more) middle next)
    (reads : Reads (wayTo directory) (Pattern.sequence (first ++ more)) start finish) :
    ∃ next, Reads (wayBelow directory rest) (Pattern.sequence (first ++ more)) start next := by
  obtain ⟨middle, before, after⟩ := Regex.reads_sequence_append.mp reads
  obtain ⟨next, further⟩ := goesOn middle after
  exact ⟨next, Regex.reads_sequence_append.mpr
    ⟨middle, before.of_longer wayTo_begins (Regex.isLocal_sequence isLocal), further⟩⟩

/-- All stars read the name behind the way to a directory. -/
theorem exists_reads_name (atEnd : start.position = (wayTo directory).size) :
    ∃ next, Reads (wayBelow directory rest)
      (Pattern.sequence [.loop notSlash 0 none .greedy, ending]) start next := by
  let name := rest.takeWhile (· != '/')
  have behind : (wayBelow directory rest).toList.drop start.position = rest := by
    rw [atEnd]
    simp [wayTo, wayBelow]
  have stands : name <+: (wayBelow directory rest).toList.drop start.position := by
    rw [behind]
    exact List.takeWhile_prefix _
  have each : ∀ c ∈ name, Regex.CharSet.contains ⟨true, [.range '/' '/']⟩ c = true := by
    intro c member
    rw [notSlash_contains]
    simpa using List.mem_takeWhile_imp member
  have run := Regex.reads_run each .greedy stands
  have atName : (wayBelow directory rest)[start.position + name.length]? =
      (rest.dropWhile (· != '/')).head? := by
    rw [← Array.getElem?_toList, ← List.getElem?_drop, behind, ← List.head?_drop]
    conv_lhs => rw [← List.takeWhile_append_dropWhile (p := (· != '/')) (l := rest)]
    rw [List.drop_left]
  have closes : ∃ next, Reads (wayBelow directory rest) ending
      { start with position := start.position + name.length } next := by
    cases after : rest.dropWhile (· != '/') with
    | nil =>
      have whole : name = rest := by
        have joined := List.takeWhile_append_dropWhile (p := (· != '/')) (l := rest)
        rwa [after, List.append_nil] at joined
      refine ⟨_, .eitherSecond (.anchor ?_)⟩
      rw [Regex.Anchor.holds, Bool.or_eq_true, beq_iff_eq]
      left
      rw [whole]
      simp only [atEnd, wayTo, wayBelow, List.size_toArray, List.length_append,
        List.length_cons, List.length_nil]
      omega
    | cons c others =>
      have notKept := List.head?_dropWhile_not (· != '/') rest
      rw [after] at notKept atName
      obtain rfl : c = '/' := by simpa using notKept
      exact ⟨_, .eitherFirst (.group (Regex.reads_single.mpr ⟨atName, rfl⟩))⟩
  obtain ⟨next, closed⟩ := closes
  exact ⟨next, Regex.reads_sequence_cons.mpr ⟨_, run, closed⟩⟩

/-- The last part of a name reads no slash, so it is read behind the way to a directory only if it
reads nothing there. -/
theorem exists_reads_part
    {part : Part} (simple : part.IsSimple) {pattern : Pattern} (known : part.pattern = .ok pattern)
    (reads : Reads (wayTo directory) (Pattern.sequence [pattern, ending]) start finish) :
    ∃ next, Reads (wayBelow directory rest) (Pattern.sequence [pattern, ending]) start next := by
  obtain ⟨middle, here, closing⟩ := Regex.reads_sequence_cons.mp reads
  rcases reads_ending_or_end rest closing with ⟨next, closed⟩ | atEnd
  · exact ⟨next, Regex.reads_sequence_cons.mpr
      ⟨middle, here.of_longer wayTo_begins (ofBody_of_part known).isLocal, closed⟩⟩
  · -- A part that had read anything would have read the slash that closes the way.
    have last : (wayTo directory)[middle.position - 1]? = some '/' := by
      rw [atEnd]
      exact getElem?_wayTo_size
    cases simple with
    | @character c different =>
      cases known
      obtain ⟨read, rfl⟩ := Regex.reads_single.mp here
      rw [Nat.add_sub_cancel, read] at last
      exact absurd (Option.some.inj last) different
    | anyCharacter =>
      cases known
      cases here with
      | one read member =>
        rw [Nat.add_sub_cancel, read] at last
        exact absurd (Option.some.inj last) (notSlash_contains.mp member)
    | anyText =>
      cases known
      rcases not_slash_of_reads_loop here with rfl | other
      · exact exists_reads_name atEnd
      · exact absurd last other

theorem exists_reads_parts
    {found : List Part} (simple : ∀ part ∈ found, part.IsSimple) {patterns : List Pattern}
    (known : Listwise (fun part pattern => part.pattern = .ok pattern) found patterns)
    (nonempty : found ≠ [])
    (reads : Reads (wayTo directory) (Pattern.sequence (patterns ++ [ending])) start finish) :
    ∃ next, Reads (wayBelow directory rest) (Pattern.sequence (patterns ++ [ending]))
      start next := by
  induction known generalizing start with
  | nil => exact absurd rfl nonempty
  | @cons part pattern others otherPatterns head tail ih =>
    have partSimple := simple part List.mem_cons_self
    cases tail with
    | nil => exact exists_reads_part partSimple head reads
    | cons second more =>
      exact exists_reads_append [pattern] (by simpa using (ofBody_of_part head).isLocal)
        (fun middle => ih
          (fun other member => simple other (List.mem_cons_of_mem _ member)) (by simp)) reads

/-- A last segment that is read on the way to a directory is read on the way below it. -/
theorem exists_reads_segment
    (rest : List Char) {segment : Segment} (simple : segment.IsSimple)
    (nonempty : segment ≠ .name [])
    (notDirectories : segment ≠ .directories) {body : List Pattern}
    (known : segment.body = .ok body)
    (reads : Reads (wayTo directory) (Pattern.sequence (body ++ [ending])) start finish) :
    ∃ next, Reads (wayBelow directory rest) (Pattern.sequence (body ++ [ending])) start next := by
  cases segment with
  | directories => exact absurd rfl notDirectories
  | name found =>
    exact exists_reads_parts (simple found rfl) (Listwise.mapM_eq_ok_iff.mp known)
      (fun none => nonempty (congrArg Segment.name none)) reads
  | anyName =>
    cases known
    obtain ⟨middle, here, closing⟩ := Regex.reads_sequence_cons.mp reads
    rcases reads_ending_or_end rest closing with ⟨next, closed⟩ | atEnd
    · exact ⟨next, Regex.reads_sequence_cons.mpr
        ⟨middle, here.of_longer wayTo_begins rfl, closed⟩⟩
    · exfalso
      have moved := here.widths_le fun _ => (0, none)
      rcases not_slash_of_reads_loop here with same | other
      · rw [same] at moved
        simp only [Pattern.widths, notSlash] at moved
        omega
      · apply other
        rw [atEnd]
        exact getElem?_wayTo_size

/-- What the expression of segments reads on the way to a directory, it reads on the way below it.
-/
theorem exists_reads_translate
    {directoryPattern isFirst needsSlash : Bool} {segments : List Segment} {patterns : List Pattern}
    (simple : ∀ segment ∈ segments, segment.IsSimple)
    (lastSome : segments.getLast? ≠ some (.name []))
    (translated : translate directoryPattern isFirst needsSlash segments = .ok patterns)
    (reads : Reads (wayTo directory) (Pattern.sequence patterns) start finish) :
    ∃ next, Reads (wayBelow directory rest) (Pattern.sequence patterns) start next := by
  induction segments generalizing isFirst needsSlash patterns start with
  | nil =>
    cases translated
    exact ⟨start, .empty⟩
  | cons segment others ih =>
    have othersLast : others.getLast? ≠ some (.name []) := by
      cases others with
      | nil => simp
      | cons => exact lastSome
    have goesOn {needsSlash : Bool} {more : List Pattern}
        (known : translate directoryPattern false needsSlash others = .ok more) (middle : Cursor)
        (after : Reads (wayTo directory) (Pattern.sequence more) middle finish) :
        ∃ next, Reads (wayBelow directory rest) (Pattern.sequence more) middle next :=
      ih (fun other member => simple other (List.mem_cons_of_mem _ member))
        othersLast known after
    rcases translate_cases translated with ⟨-, -, more, known, rfl⟩ | ⟨-, -, -, rfl⟩ |
      ⟨-, -, -, more, known, rfl⟩ | ⟨isName, body, more, bodyKnown, known, rfl⟩
    · refine exists_reads_append [_, _] ?_ (goesOn known) reads
      simp [Pattern.isLocal, someText, slash]
    · refine ⟨finish, reads.of_longer wayTo_begins ?_⟩
      cases directoryPattern <;> rfl
    · refine exists_reads_append [_] ?_ (goesOn known) reads
      simp [Pattern.isLocal, someText, slash]
    · have opening : ∀ pattern ∈ (if isFirst then [Pattern.anchor .textStart] else []) ++
          (if needsSlash then [slash] else []), pattern.isLocal = true := by
        rw [List.forall_mem_append]
        constructor
        · split <;> simp [Pattern.isLocal]
        · split <;> simp [Pattern.isLocal, slash]
      -- Only the last segment is read up to the end of the way; what stands before it is local.
      cases others with
      | nil =>
        cases known
        rw [List.append_nil, List.append_assoc] at reads ⊢
        have nonempty : segment ≠ .name [] := fun none => lastSome (congrArg some none)
        exact exists_reads_append _ opening (fun middle => exists_reads_segment rest
          (simple segment List.mem_cons_self) nonempty isName bodyKnown) reads
      | cons second others =>
        refine exists_reads_append _ ?_ (goesOn known) reads
        rw [List.isEmpty_cons, List.forall_mem_append, List.forall_mem_append]
        exact ⟨⟨opening, fun _ member => (ofBody_of_segment bodyKnown _ member).isLocal⟩, by simp⟩

/-- What matches the way to a directory matches on every way below it. -/
theorem exists_reads_ofSegments
    {directoryPattern : Bool} {segments : List Segment} {pattern : Pattern}
    (simple : ∀ segment ∈ segments, segment.IsSimple)
    (lastSome : segments.getLast? ≠ some (.name []))
    (known : ofSegments directoryPattern segments = .ok pattern)
    (reads : Reads (wayTo directory) pattern start finish) :
    ∃ next, Reads (wayBelow directory rest) pattern start next := by
  unfold ofSegments at known
  split at known
  · cases known
    refine ⟨finish, reads.of_longer wayTo_begins ?_⟩
    cases directoryPattern <;> rfl
  · cases known
    exact ⟨finish, reads.of_longer wayTo_begins rfl⟩
  · cases known
    refine ⟨finish, reads.of_longer wayTo_begins ?_⟩
    cases directoryPattern <;> rfl
  · cases translated : translate directoryPattern true false segments with
    | error fault =>
      rw [translated] at known
      cases known
    | ok patterns =>
      rw [translated] at known
      cases known
      exact exists_reads_translate simple lastSome translated reads

end

/-! ## Compiled lines without sets -/

theorem mergeStars_subset (written : List String) : mergeStars written ⊆ written := by
  fun_induction mergeStars written with
  | case1 => simp
  | case2 => simp
  | case3 a b rest same ih =>
    exact fun text member => List.mem_cons_of_mem _ (ih member)
  | case4 a b rest apart ih => exact List.cons_subset_cons _ ih

theorem getLast?_mergeStars (written : List String) :
    (mergeStars written).getLast? = written.getLast? := by
  fun_induction mergeStars written with
  | case1 => rfl
  | case2 => rfl
  | case3 a b rest same ih => exact ih
  | case4 a b rest apart ih =>
    obtain ⟨more, merged⟩ := exists_mergeStars_cons b rest
    rw [merged] at ih ⊢
    exact ih

theorem closed_last (written : List String) : (closed written).getLast? ≠ some "" := by
  unfold closed
  split
  · rw [List.getLast?_append, List.getLast?_singleton, Option.some_or]
    decide
  · assumption

variable {text : String} {body : List Char} {matcher : Matcher}

theorem mem_of_mem_closed {written : List String} (member : text ∈ closed written) :
    text ∈ written ∨ text = stars := by
  unfold closed at member
  split at member
  · rcases List.mem_append.mp member with old | new
    · exact .inl (List.mem_of_mem_dropLast old)
    · exact .inr (List.mem_singleton.mp new)
  · exact .inl member

/-- The normal form is made from the texts between slashes, empty ones apart, and from double stars
in front. -/
theorem exists_anchored (written : List String) :
    ∃ anchored, segments written = mergeStars (closed anchored) ∧
      (∀ text ∈ anchored, text ∈ written ∨ text = stars) ∧
      (∀ text ∈ written, text ≠ "" → text ∈ anchored) ∧
      (written ≠ [] → written ≠ [""] → anchored ≠ []) := by
  refine ⟨_, rfl, ?_⟩
  split
  · exact ⟨fun text member => .inl (List.mem_cons_of_mem _ member),
      fun text member some => (List.mem_cons.mp member).resolve_left some, by simp⟩
  · split
    · simp
    · simp +contextual
  · split
    · simp
    · simp +contextual
  · simp +contextual

/-- The normal form has the texts between slashes and double stars, and does not end with nothing.
-/
theorem segments_texts (written : List String) :
    (∀ text ∈ segments written, text ∈ written ∨ text = stars) ∧
      (segments written).getLast? ≠ some "" := by
  obtain ⟨anchored, normal, inWritten, -⟩ := exists_anchored written
  rw [normal, getLast?_mergeStars]
  refine ⟨fun text member => ?_, closed_last anchored⟩
  rcases mem_of_mem_closed (mergeStars_subset _ member) with old | isStars
  · exact inWritten text old
  · exact .inr isStars

theorem exists_of_compileBody {ignores : Bool}
    (compiled : compileBody ignores body = .ok (some matcher)) :
    ∃ found directoryPattern, matcher.ignores = ignores ∧
      readSegments (segments ((Text.splitChars '/' body).map String.ofList)) = .ok (some found) ∧
      ofSegments directoryPattern found = .ok matcher.expression := by
  unfold compileBody at compiled
  dsimp only at compiled
  split at compiled
  · cases compiled
  · cases read : readSegments (segments ((Text.splitChars '/' body).map String.ofList)) with
    | error fault =>
      rw [read] at compiled
      cases compiled
    | ok outcome =>
      rw [read] at compiled
      cases outcome with
      | none => cases compiled
      | some found =>
        simp only [bind, Except.bind] at compiled
        cases expressed : ofSegments
            (((Text.splitChars '/' body).map String.ofList).getLast? == some "") found with
        | error fault =>
          rw [expressed] at compiled
          cases compiled
        | ok expression =>
          rw [expressed] at compiled
          cases compiled
          exact ⟨found, _, rfl, rfl, expressed⟩

/-- What a line is compiled to, if it is a pattern at all. -/
theorem exists_of_compile {line : String} (compiled : compile line = .ok (some matcher)) :
    ∃ body found directoryPattern,
      (trimmed line.toList = body ∧ body.head? ≠ some '!' ∧ matcher.ignores = true ∨
        trimmed line.toList = '!' :: body ∧ matcher.ignores = false) ∧
      readSegments (segments ((Text.splitChars '/' body).map String.ofList)) = .ok (some found) ∧
      ofSegments directoryPattern found = .ok matcher.expression := by
  rcases compile_cases line with ⟨-, same⟩ | ⟨body, negated, same⟩ | ⟨-, -, positive, same⟩
  · rw [same] at compiled
    cases compiled
  · rw [same] at compiled
    obtain ⟨found, directoryPattern, ignores, known⟩ := exists_of_compileBody compiled
    exact ⟨body, found, directoryPattern, .inr ⟨negated, ignores⟩, known⟩
  · rw [same] at compiled
    obtain ⟨found, directoryPattern, ignores, known⟩ := exists_of_compileBody compiled
    exact ⟨_, found, directoryPattern, .inl ⟨rfl, positive, ignores⟩, known⟩

/-- Texts between slashes have no characters of their own. -/
theorem free_of_mem_segments (noSet : '[' ∉ body)
    (member : text ∈ segments ((Text.splitChars '/' body).map String.ofList)) :
    '[' ∉ text.toList ∧ '/' ∉ text.toList := by
  have pieces : (Text.splitChars '/' body).map String.ofList =
      Text.split '/' (String.ofList body) := by
    rw [Text.split, String.toList_ofList]
  rcases (segments_texts _).1 text member with piece | rfl
  · rw [pieces] at piece
    refine ⟨fun inside => noSet ?_, Text.free_of_mem_split piece⟩
    have subset := Text.toList_subset_join piece
    rw [Text.join_split, String.toList_ofList] at subset
    exact subset inside
  · decide

/-- A text without sets between slashes is a simple segment, and a name without parts only when it
is empty. -/
theorem ReadAs.isSimple {segment : Segment} (readAs : ReadAs text segment)
    (noSet : '[' ∉ text.toList) (noSlash : '/' ∉ text.toList) :
    segment.IsSimple ∧ (segment = .name [] → text = "") := by
  cases readAs with
  | stars => exact ⟨nofun, nofun⟩
  | star => exact ⟨nofun, nofun⟩
  | @name _ found notStars cut =>
    obtain ⟨each, some⟩ := simple_of_parts (Nat.lt_succ_self _) cut noSet noSlash
    constructor
    · rintro _ ⟨⟩
      exact each
    · rintro ⟨⟩
      by_contra nonempty
      exact some (by simpa using nonempty) rfl

/-- The segments of a line without sets are simple, and the last one is not empty. -/
theorem simple_of_readSegments {found : List Segment} (noSet : '[' ∉ body)
    (read : readSegments (segments ((Text.splitChars '/' body).map String.ofList)) =
      .ok (some found)) :
    (∀ segment ∈ found, segment.IsSimple) ∧ found.getLast? ≠ some (.name []) := by
  have related := listwise_readSegments read
  have lastSome := (segments_texts ((Text.splitChars '/' body).map String.ofList)).2
  constructor
  · intro segment member
    obtain ⟨text, textMember, readAs⟩ := related.exists_origin member
    obtain ⟨textNoSet, noSlash⟩ := free_of_mem_segments noSet textMember
    exact (readAs.isSimple textNoSet noSlash).1
  · intro last
    have ends := related.getLast?
    rw [last] at ends
    cases lastText : (segments ((Text.splitChars '/' body).map String.ofList)).getLast? with
    | none =>
      rw [lastText] at ends
      cases ends
    | some text =>
      rw [lastText] at ends
      cases ends with
      | some readAs =>
        obtain ⟨textNoSet, noSlash⟩ := free_of_mem_segments noSet (List.mem_of_getLast? lastText)
        apply lastSome
        rw [lastText, (readAs.isSimple textNoSet noSlash).2 rfl]

theorem trimmed_begins (line : List Char) : trimmed line <+: line := by
  unfold trimmed Text.trimEnd
  split
  · exact List.prefix_refl line
  · have suffix := List.dropWhile_suffix Text.isBlank (l := line.reverse)
    rw [← List.reverse_reverse line]
    exact List.reverse_prefix.mpr (by simpa using suffix)

/-- The expressions of patterns are regular. -/
theorem isRegular_ofSegments {directoryPattern : Bool} {segments : List Segment} {pattern : Pattern}
    (known : ofSegments directoryPattern segments = .ok pattern) :
    pattern.isRegular = true := by
  unfold ofSegments at known
  split at known
  · cases known
    cases directoryPattern <;> rfl
  · cases known
    rfl
  · cases known
    cases directoryPattern <;> rfl
  · cases translated : translate directoryPattern true false segments with
    | error fault =>
      rw [translated] at known
      cases known
    | ok patterns =>
      rw [translated] at known
      cases known
      exact Regex.isRegular_sequence (isRegular_of_translate translated)

/-- A line without sets that matches the way to a directory matches every way below it. -/
theorem isSome_strength?_below {line : String} (compiled : compile line = .ok (some matcher))
    (noSet : '[' ∉ line.toList) {directory path : String} {rest : List Char}
    (below : path.toList = directory.toList ++ '/' :: rest)
    (matched : (matcher.strength? (directory ++ "/")).isSome = true) :
    (matcher.strength? path).isSome = true := by
  obtain ⟨body, found, directoryPattern, trimmedLine, read, known⟩ := exists_of_compile compiled
  have bodySubset : body ⊆ line.toList := by
    have trimmedSubset := (trimmed_begins line.toList).subset
    rcases trimmedLine with ⟨same, -⟩ | ⟨negated, -⟩
    · rwa [same] at trimmedSubset
    · rw [negated] at trimmedSubset
      exact List.Subset.trans (List.subset_cons_self _ _) trimmedSubset
  obtain ⟨simple, lastSome⟩ := simple_of_readSegments (fun inside => noSet (bodySubset inside)) read
  have regular := isRegular_ofSegments known
  rw [isSome_strength?_iff regular] at matched ⊢
  obtain ⟨start, inside, next, reads⟩ := matched
  have wayText : (directory ++ "/").toList = directory.toList ++ ['/'] := by
    rw [String.toList_append]
    rfl
  rw [wayText] at inside reads
  obtain ⟨further, goesOn⟩ := exists_reads_ofSegments simple lastSome known reads
  refine ⟨start, ?_, further, ?_⟩
  · rw [below]
    simp only [List.length_append, List.length_cons, List.length_nil] at inside ⊢
    omega
  · rw [below]
    exact goesOn

end Matcher

/-! ## Rule sets without negations and sets -/

/-- A line that takes nothing back and has no sets. -/
def IsUniform (line : String) : Prop := line.toList.head? ≠ some '!' ∧ '[' ∉ line.toList

theorem ignores_of_positive
    {line : String} (positive : line.toList.head? ≠ some '!') {matcher : Matcher}
    (compiled : Matcher.compile line = .ok (some matcher)) :
    matcher.ignores = true := by
  obtain ⟨body, -, -, trimmedLine, -, -⟩ := Matcher.exists_of_compile compiled
  rcases trimmedLine with ⟨-, -, ignores⟩ | ⟨negated, -⟩
  · exact ignores
  · obtain ⟨rest, whole⟩ := Matcher.trimmed_begins line.toList
    rw [negated] at whole
    exact absurd (by rw [← whole]; rfl) positive

theorem exists_subjectOf
    {way more : List String} (nonempty : way ≠ []) (moreSome : more ≠ []) (isDirectory : Bool) :
    ∃ rest, (subjectOf (way ++ more) isDirectory).toList =
      (Text.join "/" way).toList ++ '/' :: rest := by
  obtain ⟨first, others, rfl⟩ := List.exists_cons_of_ne_nil moreSome
  have joined : (Text.join "/" (way ++ first :: others)).toList = (Text.join "/" way).toList ++
      '/' :: (first.toList ++ others.flatMap fun other => '/' :: other.toList) := by
    rw [Text.toList_join_append nonempty, List.flatMap_cons, List.cons_append]
  cases isDirectory with
  | false => exact ⟨_, joined⟩
  | true =>
    refine ⟨first.toList ++ (others.flatMap fun other => '/' :: other.toList) ++ ['/'], ?_⟩
    rw [subjectOf, if_pos rfl, String.toList_append, joined, List.append_assoc, List.cons_append]
    rfl

/-- Where no line takes anything back and none has a set, all that lies in an ignored directory is
ignored. -/
theorem ignores_below {rules : List Rule} {root : Path} {extra : List String} {set : RuleSet}
    (compiled : RuleSet.compile rules root extra = .ok set)
    (uniform : ∀ line ∈ RuleSet.allPatterns rules root extra, IsUniform line)
    {directory path : Path} {way more : List String} {isDirectory : Bool}
    (below : LiesBelow root directory way) (pathBelow : LiesBelow root path (way ++ more))
    (moreSome : more ≠ []) (ignored : set.ignores directory true = true) :
    set.ignores path isDirectory = true := by
  obtain ⟨setRoot, matchers, -⟩ := RuleSet.matchers_of_compile compiled
  have origin : ∀ matcher ∈ set.matchers, ∃ line, IsUniform line ∧
      Matcher.compile line = .ok (some matcher) := by
    intro matcher member
    rw [matchers] at member
    obtain ⟨line, lineMember, known⟩ := List.mem_filterMap.mp member
    refine ⟨line, uniform line lineMember, ?_⟩
    unfold Matcher.ofLine? at known
    rcases outcome : Matcher.compile line with fault | found
    · rw [outcome] at known
      cases known
    · rw [outcome] at known
      exact congrArg Except.ok known
  have ignoring : ∀ matcher ∈ set.matchers, matcher.ignores = true := by
    intro matcher member
    obtain ⟨line, lineUniform, lineCompiled⟩ := origin matcher member
    exact ignores_of_positive lineUniform.1 lineCompiled
  rw [ignores_iff_of_isDirectory setRoot ignoring below] at ignored
  rw [ignores_iff_of_isDirectory setRoot ignoring pathBelow]
  obtain ⟨matcher, member, matched⟩ := ignored
  obtain ⟨line, lineUniform, lineCompiled⟩ := origin matcher member
  obtain ⟨rest, whole⟩ := exists_subjectOf below.nonempty moreSome isDirectory
  exact ⟨matcher, member, Matcher.isSome_strength?_below lineCompiled lineUniform.2 whole matched⟩

end Ignore
end ModuleAtlas
