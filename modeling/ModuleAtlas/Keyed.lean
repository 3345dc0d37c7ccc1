/-!
# Lists

Sums of lists, and lists of pairs as finite maps.
-/

namespace ModuleAtlas

/-!
## Counting

The sum of a list of numbers.
-/

/-- The sum of numbers. -/
def total : List Nat → Nat
  | [] => 0
  | number :: rest => number + total rest

@[simp]
theorem total_nil : total [] = 0 := rfl

@[simp]
theorem total_cons (number : Nat) (rest : List Nat) :
    total (number :: rest) = number + total rest := rfl

@[simp]
theorem total_append (first second : List Nat) :
    total (first ++ second) = total first + total second := by
  induction first with
  | nil => simp
  | cons number rest ih => simp [ih, Nat.add_assoc]

/-!
## Keyed lists

Finite maps that keep their keys in the order of first insertion, as lists of pairs.
-/

namespace Keyed

/-- The value of a key. -/
def find? [BEq κ] (key : κ) (entries : List (κ × α)) : Option α := entries.lookup key

/-- Whether a key has a value. -/
def has [BEq κ] (key : κ) (entries : List (κ × α)) : Bool := (entries.lookup key).isSome

/-- Gives a key a value. A key that is present keeps its place; a new one comes last. -/
def put [BEq κ] (key : κ) (value : α) : List (κ × α) → List (κ × α)
  | [] => [(key, value)]
  | entry :: rest =>
    if entry.1 == key then (entry.1, value) :: rest else entry :: put key value rest

/-- A value that is put under a key is found there, and every other entry as before. -/
theorem find?_put [BEq κ] [LawfulBEq κ] (key other : κ) (value : α) (entries : List (κ × α)) :
    find? other (put key value entries) =
      if other == key then some value else find? other entries := by
  unfold find?
  induction entries with
  | nil =>
    cases same : other == key <;> simp [put, List.lookup_cons, same]
  | cons entry rest ih =>
    obtain ⟨entryKey, entryValue⟩ := entry
    rw [put]
    split
    · rename_i replaced
      rw [← eq_of_beq replaced]
      cases same : other == entryKey <;> simp [List.lookup_cons, same]
    · rename_i different
      rw [List.lookup_cons, List.lookup_cons, ih]
      cases same : other == entryKey with
      | true =>
        have apart : (other == key) = false := by
          rw [eq_of_beq same]
          exact Bool.eq_false_iff.mpr different
        simp [apart]
      | false => rfl

/-- Adds a value to the list that a key holds. -/
def push [BEq κ] (key : κ) (value : α) : List (κ × List α) → List (κ × List α)
  | [] => [(key, [value])]
  | entry :: rest =>
    if entry.1 == key then (entry.1, entry.2 ++ [value]) :: rest
    else entry :: push key value rest

/-- The map that a list of pairs describes, later pairs overriding earlier ones. -/
def ofPairs [BEq κ] (pairs : List (κ × α)) : List (κ × α) :=
  pairs.foldl (fun entries pair => put pair.1 pair.2 entries) []

end Keyed

end ModuleAtlas
