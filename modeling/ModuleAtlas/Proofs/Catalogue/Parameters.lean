import ModuleAtlas.Proofs.Catalogue.Editions
import ModuleAtlas.Proofs.Shape.Siblings
import ModuleAtlas.Proofs.Types.Inheriting
import ModuleAtlas.Proofs.Types.Renaming

/-!
# Renamed type parameters

Where type parameters get other names, throughout the files and such as no file declares or imports,
all exports are shown as before, but for these names.  The names of a type parameter without a value
are looked up in the module as any other name, so that a parameter with the name of a declaration is
taken for it.
-/

namespace ModuleAtlas.Catalogue

open Node Simplifier ModuleAtlas.Types

section

variable {naming : Renaming} {here : List String} {above kind text name other : String}
  {named : Bool} {role : Option String} {start line : Nat} {children copies : List Node}

end

end ModuleAtlas.Catalogue
