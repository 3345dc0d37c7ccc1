import ModuleAtlas.Failure

/-!
# Arguments

Arguments that have to be lists of texts. They are checked before anything is read.
-/

namespace ModuleAtlas.Argument

/-- The kind of a value that is no list. -/
def kindOf : Json → ValueKind
  | .object _ => .mapping
  | .int _ => .integer
  | .decimal _ => .decimal
  | .bool _ => .truth
  | _ => .text

/-- What is wrong with an argument, or the texts that it lists. -/
def check : Json → Except ArgumentFault (List String)
  | .null => .error .missing
  | .array items =>
    match Json.textList? (.array items) with
    | some texts => .ok texts
    | none => .error .notTexts
  | other => .error (.notList (kindOf other))

/-- The texts that the argument of a name lists. -/
def texts (name : String) (value : Json) : Except Failure (List String) :=
  (check value).mapError (.argument name)

end ModuleAtlas.Argument
