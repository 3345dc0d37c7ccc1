import ModuleAtlas.Json.Value

/-!
# Conditional exports

The target that an entry of a package's export table names: a text is a target, a list offers its
items in order, and a table offers the values under the known conditions in their order.
-/

namespace ModuleAtlas.Resolve

/-- The known conditions, the preferred one first. -/
def conditions : List String := ["types", "import", "require", "node", "default"]

/-- The first target among the picks of a table, by the order of the conditions. -/
def firstCondition (picks : List (String × Option String)) : Option String :=
  conditions.findSome? fun condition => (Keyed.find? condition picks).bind id

mutual

/-- The first usable target of an entry. -/
def pickTarget : Json → Option String
  | .string target => some target
  | .array items => pickItem items
  | .object entries => firstCondition (pickEntries entries)
  | _ => none

/-- The first usable target among items. -/
def pickItem : List Json → Option String
  | [] => none
  | item :: rest =>
    match pickTarget item with
    | some target => some target
    | none => pickItem rest

/-- The targets of the values of a table. -/
def pickEntries : List (String × Json) → List (String × Option String)
  | [] => []
  | (key, value) :: rest => (key, pickTarget value) :: pickEntries rest

end

end ModuleAtlas.Resolve
