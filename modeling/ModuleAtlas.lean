import ModuleAtlas.Argument
import ModuleAtlas.Main
import ModuleAtlas.Proofs.Catalogue.Editions
import ModuleAtlas.Proofs.Catalogue.Filtering
import ModuleAtlas.Proofs.Catalogue.Literals
import ModuleAtlas.Proofs.Graph.Comments
import ModuleAtlas.Proofs.Graph.Dependents
import ModuleAtlas.Proofs.Graph.Drawing
import ModuleAtlas.Proofs.Graph.Excluded
import ModuleAtlas.Proofs.Ignore.CoarseToFine
import ModuleAtlas.Proofs.Ignore.Compilation
import ModuleAtlas.Proofs.Ignore.Precedence
import ModuleAtlas.Proofs.Invocation.Literal
import ModuleAtlas.Proofs.Invocation.Naming
import ModuleAtlas.Proofs.Project.Pruning
import ModuleAtlas.Proofs.Resolve.Conditions
import ModuleAtlas.Proofs.Resolve.Options
import ModuleAtlas.Proofs.Resolve.Patterns
import ModuleAtlas.Proofs.Resolve.Strategies
import ModuleAtlas.Proofs.Settings.Saving
import ModuleAtlas.Proofs.Shape.Cleaning
import ModuleAtlas.Proofs.Shape.Lossless
import ModuleAtlas.Proofs.Catalogue.Parameters
import ModuleAtlas.Proofs.Shape.Rendering
import ModuleAtlas.Proofs.Shape.Shortcut
import ModuleAtlas.Proofs.Shape.Spending
import ModuleAtlas.Proofs.Shape.Tightened
import ModuleAtlas.Proofs.Source.Catalogued
import ModuleAtlas.Proofs.Types.Chains
import ModuleAtlas.Proofs.Types.ExplicitExports
import ModuleAtlas.Proofs.Types.ListingOrder
import ModuleAtlas.Proofs.Types.Substitution
import ModuleAtlas.Proofs.Types.TextMeaning
