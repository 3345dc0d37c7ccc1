import Mathlib.Tactic.Ring
import ModuleAtlas.Proofs.Text.Pieces

/-!
# Balanced brackets

A text is balanced when each closing bracket closes the bracket that was opened last and none stays
open.  Angle brackets count as brackets, but the one of an arrow does not.  How a text goes on after
a balanced piece does not depend on the piece, and white space plays no part.
-/

namespace ModuleAtlas
namespace Text

/-- The bracket that closes an opening one. -/
def closing? (c : Char) : Option Char :=
  if c = '(' then some ')' else if c = '[' then some ']' else if c = '{' then some '}'
  else if c = '<' then some '>' else none

/-- Whether a character closes a bracket.  Behind an equals sign an angle bracket makes an arrow. -/
def closes (afterEquals : Bool) (c : Char) : Bool :=
  c == ')' || c == ']' || c == '}' || (c == '>' && !afterEquals)

/-- The brackets that are to come after a character, the next one first. -/
def bracketStep (afterEquals : Bool) (c : Char) (pending : List Char) : Option (List Char) :=
  match closing? c with
  | some bracket => some (bracket :: pending)
  | none =>
    if closes afterEquals c then
      if pending.head? = some c then some pending.tail else none
    else some pending

/-- The brackets that are to come after a text, if each of its brackets closes the last open one. -/
def scan (afterEquals : Bool) (pending : List Char) : List Char → Option (List Char)
  | [] => some pending
  | c :: rest => (bracketStep afterEquals c pending).bind fun next => scan (c == '=') next rest

/-- A text all of whose brackets are closed in order. -/
def IsBalanced (text : List Char) : Prop := scan false [] text = some []

instance (text : List Char) : Decidable (IsBalanced text) :=
  inferInstanceAs (Decidable (scan false [] text = some []))

/-- Whether a text ends with an equals sign, given whether one stands in front of it. -/
def endsEqual (afterEquals : Bool) (text : List Char) : Bool :=
  (text.getLast?.map (· == '=')).getD afterEquals

/-! ## One character -/

theorem closing?_eq_some {c bracket : Char} (opens : closing? c = some bracket) :
    (c = '<' ∧ bracket = '>') ∨ (c ≠ '<' ∧ c ≠ '>' ∧ bracket ≠ '>') := by
  unfold closing? at opens
  split_ifs at opens with round square curly angled
  · cases opens
    exact .inr (by simp [round])
  · cases opens
    exact .inr (by simp [square])
  · cases opens
    exact .inr (by simp [curly])
  · cases opens
    exact .inl ⟨angled, rfl⟩

theorem ne_of_closing?_eq_none {c : Char} (opens : closing? c = none) : c ≠ '<' := by
  rintro rfl
  exact absurd opens (by decide)

section

variable {afterEquals : Bool} {c : Char} {pending next : List Char}

/-- What a character does to the brackets that are to come: it adds one, takes one away or does
nothing. -/
theorem bracketStep_eq_some_iff :
    bracketStep afterEquals c pending = some next ↔
      (∃ bracket, closing? c = some bracket ∧ next = bracket :: pending) ∨
        (closing? c = none ∧ closes afterEquals c = true ∧ pending = c :: next) ∨
          (closing? c = none ∧ closes afterEquals c = false ∧ next = pending) := by
  unfold bracketStep
  cases opened : closing? c with
  | some bracket =>
    simp only [Option.some.injEq, reduceCtorEq, false_and, or_false, exists_eq_left']
    exact eq_comm
  | none =>
    simp only [reduceCtorEq, false_and, exists_false, true_and, false_or]
    cases closes afterEquals c with
    | false =>
      simp only [Bool.false_eq_true, if_false, Option.some.injEq, false_and, true_and, false_or]
      exact eq_comm
    | true =>
      simp only [if_true, true_and, Bool.true_eq_false, false_and, or_false]
      cases pending with
      | nil => simp
      | cons top below =>
        by_cases same : top = c
        · subst same
          simp
        · simp [same]

/-- A character that is no bracket. -/
def IsPlainChar (c : Char) : Prop := closing? c = none ∧ closes false c = false

instance (c : Char) : Decidable (IsPlainChar c) :=
  inferInstanceAs (Decidable (closing? c = none ∧ closes false c = false))

theorem closes_of_plain (plain : IsPlainChar c) (afterEquals : Bool) :
    closes afterEquals c = false := by
  have never := plain.2
  simp only [closes, Bool.or_eq_false_iff, Bool.and_eq_false_iff, beq_eq_false_iff_ne] at never ⊢
  exact ⟨never.1, .inl (never.2.resolve_right (by decide))⟩

theorem bracketStep_of_plain (plain : IsPlainChar c) (afterEquals : Bool) (pending : List Char) :
    bracketStep afterEquals c pending = some pending :=
  bracketStep_eq_some_iff.mpr (.inr (.inr ⟨plain.1, closes_of_plain plain _, rfl⟩))

/-- Only what an angle bracket does depends on what stands in front of it. -/
theorem bracketStep_of_ne (notAngle : c ≠ '>') (pending : List Char) :
    bracketStep afterEquals c pending = bracketStep false c pending := by
  have apart : (c == '>') = false := beq_eq_false_iff_ne.mpr notAngle
  have same : closes afterEquals c = closes false c := by
    rw [closes, closes, apart, Bool.false_and, Bool.false_and]
  rw [bracketStep, bracketStep, same]

end

/-! ## Texts -/

section

variable {afterEquals : Bool} {text more pending next : List Char}

theorem endsEqual_append (afterEquals : Bool) (text more : List Char) :
    endsEqual afterEquals (text ++ more) = endsEqual (endsEqual afterEquals text) more := by
  unfold endsEqual
  rw [List.getLast?_append]
  cases more.getLast? <;> rfl

theorem endsEqual_cons (afterEquals : Bool) (c : Char) (rest : List Char) :
    endsEqual afterEquals (c :: rest) = endsEqual (c == '=') rest :=
  endsEqual_append afterEquals [c] rest

theorem scan_cons (afterEquals : Bool) (pending : List Char) (c : Char) (rest : List Char) :
    scan afterEquals pending (c :: rest) =
      (bracketStep afterEquals c pending).bind fun next => scan (c == '=') next rest := rfl

theorem scan_append (afterEquals : Bool) (pending text more : List Char) :
    scan afterEquals pending (text ++ more) =
      (scan afterEquals pending text).bind fun next =>
        scan (endsEqual afterEquals text) next more := by
  induction text generalizing afterEquals pending with
  | nil => rfl
  | cons c rest ih =>
    rw [List.cons_append, scan, scan, Option.bind_assoc, endsEqual_cons]
    exact congrArg _ (funext fun next => ih _ _)

/-- Only what an angle bracket at its start does depends on what stands in front of a text. -/
theorem scan_of_head (start : text.head? ≠ some '>') (pending : List Char) :
    scan afterEquals pending text = scan false pending text := by
  cases text with
  | nil => rfl
  | cons c rest =>
    have notAngle : c ≠ '>' := fun same => start (by rw [same]; rfl)
    rw [scan, scan, bracketStep_of_ne notAngle]

/-- Brackets that are to come later do not matter while brackets are closed in order. -/
theorem scan_of_longer (known : scan afterEquals pending text = some next) (later : List Char) :
    scan afterEquals (pending ++ later) text = some (next ++ later) := by
  induction text generalizing afterEquals pending with
  | nil =>
    cases known
    rfl
  | cons c rest ih =>
    obtain ⟨middle, step, onward⟩ := Option.bind_eq_some_iff.mp known
    refine Option.bind_eq_some_iff.mpr ⟨middle ++ later, ?_, ih onward⟩
    rw [bracketStep_eq_some_iff] at step ⊢
    rcases step with ⟨bracket, opens, rfl⟩ | ⟨opens, closed, rfl⟩ | ⟨opens, closed, rfl⟩
    · exact .inl ⟨bracket, opens, rfl⟩
    · exact .inr (.inl ⟨opens, closed, rfl⟩)
    · exact .inr (.inr ⟨opens, closed, rfl⟩)

/-- A balanced text leaves what is to come as it is. -/
theorem IsBalanced.scan_eq (balanced : IsBalanced text) (pending : List Char) :
    scan false pending text = some pending :=
  scan_of_longer balanced pending

theorem scan_of_plain (plain : ∀ c ∈ text, IsPlainChar c) (afterEquals : Bool)
    (pending : List Char) :
    scan afterEquals pending text = some pending := by
  induction text generalizing afterEquals with
  | nil => rfl
  | cons c rest ih =>
    obtain ⟨here, others⟩ := List.forall_mem_cons.mp plain
    rw [scan, bracketStep_of_plain here, Option.bind_some, ih others]

/-! ## Angle brackets -/

/-- The number of angle brackets that a character opens, less the number that it closes. -/
def angle (afterEquals : Bool) (c : Char) : Int :=
  if c = '<' then 1 else if c = '>' && !afterEquals then -1 else 0

/-- The number of angle brackets that a text opens, less the number that it closes. -/
def surplus (afterEquals : Bool) : List Char → Int
  | [] => 0
  | c :: rest => angle afterEquals c + surplus (c == '=') rest

theorem surplus_append (afterEquals : Bool) (text more : List Char) :
    surplus afterEquals (text ++ more) =
      surplus afterEquals text + surplus (endsEqual afterEquals text) more := by
  induction text generalizing afterEquals with
  | nil => simp [surplus, endsEqual]
  | cons c rest ih =>
    rw [List.cons_append, surplus, surplus, ih, endsEqual_cons, Int.add_assoc]

theorem surplus_of_head (start : text.head? ≠ some '>') :
    surplus afterEquals text = surplus false text := by
  cases text with
  | nil => rfl
  | cons c rest =>
    have notAngle : c ≠ '>' := fun same => start (by rw [same]; rfl)
    simp [surplus, angle, notAngle]

/-- A step changes the open angle brackets by what its character counts. -/
theorem angle_of_step {c : Char} (step : bracketStep afterEquals c pending = some next) :
    (next.count '>' : Int) = pending.count '>' + angle afterEquals c := by
  rcases bracketStep_eq_some_iff.mp step with ⟨bracket, opens, rfl⟩ | ⟨opens, closed, rfl⟩ |
    ⟨opens, closed, rfl⟩
  · rcases closing?_eq_some opens with ⟨rfl, rfl⟩ | ⟨notOpen, notClose, other⟩
    · simp [angle]
    · simp [angle, notOpen, notClose, other]
  · have notOpen := ne_of_closing?_eq_none opens
    by_cases isAngle : c = '>'
    · subst isAngle
      have noArrow : afterEquals = false := by simpa [closes] using closed
      simp [angle, noArrow]
    · simp [angle, notOpen, isAngle]
  · have notOpen := ne_of_closing?_eq_none opens
    by_cases isAngle : c = '>'
    · subst isAngle
      have arrow : afterEquals = true := by simpa [closes] using closed
      simp [angle, arrow]
    · simp [angle, notOpen, isAngle]

/-- The angle brackets to come are those before the text and those that it opens and does not
close. -/
theorem surplus_of_scan (known : scan afterEquals pending text = some next) :
    (next.count '>' : Int) = pending.count '>' + surplus afterEquals text := by
  induction text generalizing afterEquals pending with
  | nil =>
    cases known
    simp [surplus]
  | cons c rest ih =>
    obtain ⟨middle, step, onward⟩ := Option.bind_eq_some_iff.mp known
    rw [ih onward, angle_of_step step, surplus, Int.add_assoc]

theorem IsBalanced.surplus_eq (balanced : IsBalanced text) : surplus false text = 0 := by
  have counted := surplus_of_scan balanced
  simpa using counted.symm

theorem surplus_of_plain (plain : ∀ c ∈ text, IsPlainChar c) (afterEquals : Bool) :
    surplus afterEquals text = 0 := by
  have counted := surplus_of_scan (scan_of_plain plain afterEquals [])
  simpa using counted.symm

/-- A text that closes no angle bracket opens those that it has. -/
theorem surplus_eq_count (free : '>' ∉ text) (afterEquals : Bool) :
    surplus afterEquals text = text.count '<' := by
  induction text generalizing afterEquals with
  | nil => rfl
  | cons c rest ih =>
    rw [List.mem_cons, not_or] at free
    rw [surplus, ih free.2, List.count_cons]
    by_cases opens : c = '<'
    · simp [angle, opens, Int.add_comm]
    · simp [angle, opens, Ne.symm free.1]

/-! ## Lists of arguments -/

/-- A text that closes no angle bracket leaves an open one and what is behind it as it is. -/
theorem exists_above_of_scan {above below : List Char} (free : '>' ∉ text)
    (known : scan afterEquals (above ++ '>' :: below) text = some next) :
    ∃ left, next = left ++ '>' :: below ∧
      ∀ other, scan afterEquals (above ++ '>' :: other) text = some (left ++ '>' :: other) := by
  induction text generalizing afterEquals above with
  | nil =>
    cases known
    exact ⟨above, rfl, fun _ => rfl⟩
  | cons c rest ih =>
    rw [List.mem_cons, not_or] at free
    obtain ⟨middle, step, onward⟩ := Option.bind_eq_some_iff.mp known
    have goesOn : ∀ higher, middle = higher ++ '>' :: below →
        (∀ other, bracketStep afterEquals c (above ++ '>' :: other) =
          some (higher ++ '>' :: other)) →
        ∃ left, next = left ++ '>' :: below ∧
          ∀ other, scan afterEquals (above ++ '>' :: other) (c :: rest) =
            some (left ++ '>' :: other) := by
      rintro higher rfl steps
      obtain ⟨left, same, others⟩ := ih free.2 onward
      refine ⟨left, same, fun other => ?_⟩
      rw [scan, steps other, Option.bind_some]
      exact others other
    rcases bracketStep_eq_some_iff.mp step with ⟨bracket, opens, rfl⟩ | ⟨opens, closed, same⟩ |
      ⟨opens, closed, rfl⟩
    · exact goesOn (bracket :: above) rfl fun other =>
        bracketStep_eq_some_iff.mpr (.inl ⟨bracket, opens, rfl⟩)
    · cases above with
      | nil => exact absurd (List.cons.inj same).1 free.1
      | cons top higher =>
        obtain ⟨rfl, rfl⟩ := List.cons.inj same
        exact goesOn higher rfl fun other =>
          bracketStep_eq_some_iff.mpr (.inr (.inl ⟨opens, closed, rfl⟩))
    · exact goesOn above rfl fun other =>
        bracketStep_eq_some_iff.mpr (.inr (.inr ⟨opens, closed, rfl⟩))

/-- A name with a list of arguments that ends with the first closing angle bracket. -/
def IsWrapped (piece : List Char) : Prop :=
  ∃ name inner, piece = name ++ '<' :: (inner ++ ['>']) ∧ name ≠ [] ∧
    (∀ c ∈ name, IsPlainChar c) ∧ '>' ∉ inner

variable {piece : List Char}

theorem IsWrapped.head (wrapped : IsWrapped piece) : piece.head? ≠ some '>' := by
  obtain ⟨name, inner, rfl, nonempty, plain, -⟩ := wrapped
  obtain ⟨c, rest, rfl⟩ := List.exists_cons_of_ne_nil nonempty
  rintro ⟨⟩
  exact absurd (plain '>' List.mem_cons_self) (by decide)

theorem IsWrapped.endsEqual (wrapped : IsWrapped piece) (afterEquals : Bool) :
    Text.endsEqual afterEquals piece = false := by
  obtain ⟨name, inner, rfl, -⟩ := wrapped
  rw [endsEqual_append, endsEqual_cons, endsEqual_append]
  rfl

/-- What a wrapped list of arguments opens are its first bracket and those inside, less the last one
unless this makes an arrow. -/
theorem surplus_wrapped {name inner : List Char} (plain : ∀ c ∈ name, IsPlainChar c) :
    surplus false (name ++ '<' :: (inner ++ ['>'])) =
      1 + (surplus false inner + angle (endsEqual false inner) '>') := by
  have last : surplus (endsEqual false inner) ['>'] = angle (endsEqual false inner) '>' :=
    Int.add_zero _
  rw [surplus_append, surplus_of_plain plain, Int.zero_add, ← last, ← surplus_append]
  rfl

theorem IsWrapped.surplus_nonneg (wrapped : IsWrapped piece) : 0 ≤ surplus false piece := by
  obtain ⟨name, inner, rfl, -, plain, free⟩ := wrapped
  have last : -1 ≤ angle (Text.endsEqual false inner) '>' := by
    cases Text.endsEqual false inner <;> decide
  rw [surplus_wrapped plain, surplus_eq_count free]
  omega

/-- Whether a piece opens one angle bracket and does not end with an arrow. -/
def closesItself (piece : List Char) : Bool :=
  piece.count '<' == 1 && piece.dropLast.getLast? != some '='

/-- A wrapped list of arguments closes as many angle brackets as it opens exactly when it has no
second list of arguments inside and its end is not an arrow. -/
theorem IsWrapped.surplus_eq_zero_iff (wrapped : IsWrapped piece) :
    surplus false piece = 0 ↔ closesItself piece = true := by
  obtain ⟨name, inner, rfl, -, plain, free⟩ := wrapped
  have nameFree : name.count '<' = 0 := List.count_eq_zero.mpr fun member =>
    absurd (plain '<' member) (by decide)
  have counted : (name ++ '<' :: (inner ++ ['>'])).count '<' = inner.count '<' + 1 := by
    simp [nameFree]
  have inside : (name ++ '<' :: (inner ++ ['>'])).dropLast.getLast? = ('<' :: inner).getLast? := by
    have shape : name ++ '<' :: (inner ++ ['>']) = name ++ '<' :: inner ++ ['>'] := by simp
    rw [shape, List.dropLast_concat, List.getLast?_append, List.getLast?_cons, Option.some_or]
  have arrow : Text.endsEqual false inner = ((('<' :: inner).getLast?) == some '=') := by
    rw [Text.endsEqual, List.getLast?_cons]
    cases inner.getLast? <;> rfl
  rw [surplus_wrapped plain, surplus_eq_count free, closesItself, counted, inside, arrow]
  cases isArrow : ('<' :: inner).getLast? == some '='
  · have notArrow : (('<' :: inner).getLast? != some '=') = true := by rw [bne, isArrow]; rfl
    rw [notArrow, Bool.and_true, beq_iff_eq, show angle false '>' = -1 from rfl]
    omega
  · have isArrow : (('<' :: inner).getLast? != some '=') = false := by rw [bne, isArrow]; rfl
    rw [isArrow, Bool.and_false, show angle true '>' = 0 from rfl]
    exact ⟨fun same => by omega, nofun⟩

/-- Where brackets are closed in order, a wrapped list of arguments that closes as many angle
brackets as it opens is balanced. -/
theorem IsWrapped.isBalanced (wrapped : IsWrapped piece)
    (known : scan afterEquals pending piece = some next) (even : surplus false piece = 0) :
    IsBalanced piece := by
  obtain ⟨name, inner, rfl, -, plain, free⟩ := wrapped
  have inside := surplus_eq_count free false
  rw [surplus_wrapped plain] at even
  rw [scan_append, scan_of_plain plain, Option.bind_some] at known
  have opened : scan (Text.endsEqual afterEquals name) pending ('<' :: (inner ++ ['>'])) =
      scan false ('>' :: pending) (inner ++ ['>']) := rfl
  rw [opened, scan_append] at known
  obtain ⟨middle, innerKnown, last⟩ := Option.bind_eq_some_iff.mp known
  obtain ⟨left, rfl, others⟩ : ∃ left, middle = left ++ '>' :: pending ∧
      ∀ other, scan false ('>' :: other) inner = some (left ++ '>' :: other) :=
    @exists_above_of_scan _ _ _ [] _ free innerKnown
  have noArrow : Text.endsEqual false inner = false := by
    by_contra arrow
    rw [Bool.not_eq_false] at arrow
    rw [arrow] at even
    have none : angle true '>' = 0 := rfl
    omega
  rw [noArrow] at last even
  have closesOne : angle false '>' = -1 := rfl
  have noneOpen : left.count '>' = 0 := by
    have counted := surplus_of_scan innerKnown
    rw [List.count_append] at counted
    push_cast at counted
    omega
  have none : left = [] := by
    cases left with
    | nil => rfl
    | cons top left =>
      obtain ⟨rest, step, -⟩ := Option.bind_eq_some_iff.mp last
      rcases bracketStep_eq_some_iff.mp step with ⟨_, opens, -⟩ | ⟨-, -, same⟩ | ⟨-, closed, -⟩
      · cases opens
      · rw [(List.cons.inj same).1, List.count_cons_self] at noneOpen
        exact absurd noneOpen (Nat.succ_ne_zero _)
      · cases closed
  subst none
  have alone : scan false ['>'] inner = some ['>'] := others []
  unfold IsBalanced
  rw [scan_append, scan_of_plain plain, Option.bind_some]
  have opened : scan (Text.endsEqual false name) [] ('<' :: (inner ++ ['>'])) =
      scan false ['>'] (inner ++ ['>']) := rfl
  rw [opened, scan_append, alone, Option.bind_some, noArrow]
  rfl

/-! ## White space -/

theorem plain_of_not_mem {c : Char} (other : c ∉ "([\x7b<)]\x7d>".toList) : IsPlainChar c := by
  simp only [show "([\x7b<)]\x7d>".toList = ['(', '[', '{', '<', ')', ']', '}', '>'] from by decide,
    List.mem_cons, List.not_mem_nil, or_false, not_or] at other
  obtain ⟨round, square, curly, angled, roundEnd, squareEnd, curlyEnd, angledEnd⟩ := other
  constructor
  · rw [closing?, if_neg round, if_neg square, if_neg curly, if_neg angled]
  · simp [closes, roundEnd, squareEnd, curlyEnd, angledEnd]

theorem plain_of_isBlank {c : Char} (blank : isBlank c = true) :
    IsPlainChar c ∧ (c == '=') = false := by
  have visible : ∀ other ∈ '=' :: "([\x7b<)]\x7d>".toList, isBlank other = false :=
    fun other member =>
      Bool.eq_false_iff.mpr (List.any_eq_false.mp (by decide +kernel) other member)
  constructor
  · refine plain_of_not_mem fun member => ?_
    rw [visible c (List.mem_cons_of_mem _ member)] at blank
    cases blank
  · refine beq_eq_false_iff_ne.mpr ?_
    rintro rfl
    rw [visible '=' List.mem_cons_self] at blank
    cases blank

theorem scan_blank {c : Char} (blank : isBlank c = true) (afterEquals : Bool)
    (pending rest : List Char) :
    scan afterEquals pending (c :: rest) = scan false pending rest := by
  obtain ⟨plain, notEqual⟩ := plain_of_isBlank blank
  rw [scan, bracketStep_of_plain plain, Option.bind_some, notEqual]

/-- White space plays no part in what brackets are to come, unless it parts an arrow. -/
theorem scan_collapseChars
    (start : afterEquals = false ∨ ∀ c ∈ text.head?, isBlank c = false) (pending : List Char) :
    scan afterEquals pending (collapseChars text) = scan afterEquals pending text := by
  have space : isBlank ' ' = true := by decide
  fun_induction collapseChars text generalizing afterEquals pending with
  | case1 => rfl
  | case2 c rest blank ih =>
    have noEquals : afterEquals = false := by
      rcases start with same | visible
      · exact same
      · rw [visible c rfl] at blank
        cases blank
    rw [noEquals, scan_blank blank, ih (.inl rfl)]
  | case3 c visible => rfl
  | case4 c visible d rest blank none ih =>
    have onward : ∀ next, scan false next rest = some next := by
      intro next
      have collapsed :
          scan false next (collapseChars (d :: rest)) = scan false next (d :: rest) :=
        ih (.inl rfl) next
      rw [none, scan_blank blank] at collapsed
      exact collapsed.symm
    rw [none, scan_cons, scan_cons]
    refine congrArg _ (funext fun next => ?_)
    rw [scan_blank blank, onward]
    rfl
  | case5 c visible d rest blank some ih =>
    split
    · rename_i none
      exact absurd none some
    · rw [scan_cons, scan_cons]
      refine congrArg _ (funext fun next => ?_)
      rw [scan_blank space, scan_blank blank, ih (.inl rfl), scan_blank blank]
  | case6 c visible d rest next ih =>
    rw [scan_cons, scan_cons]
    refine congrArg _ (funext fun open_ => ?_)
    exact ih (.inr fun other head => by
      cases head
      exact Bool.eq_false_iff.mpr next) open_

/-- Normalizing white space neither makes a text balanced nor spoils it. -/
theorem isBalanced_collapseChars_iff : IsBalanced (collapseChars text) ↔ IsBalanced text := by
  unfold IsBalanced
  rw [scan_collapseChars (.inl rfl)]

end

end Text
end ModuleAtlas
