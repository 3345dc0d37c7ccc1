import ModuleAtlas.Proofs.Session.Glossed
import ModuleAtlas.Types.Reading

/-!
# Types that are alike

Two runs of an analysis may read two editions of the same files: one with comments, one with other
names for type parameters, or the same files twice.  Types are alike when both runs build them in
the same way.
-/

namespace ModuleAtlas
namespace Node

/-!
## Syntax that is moved

The same syntax at another place of a file differs in the positions and lines of its nodes alone.
Whatever looks at neither finds the same in it.
-/

/-- A node and its copy at another place. -/
inductive Moved : Node → Node → Prop where
  | mk {kind : String} {named : Bool} {role : Option String} {start line otherStart otherLine : Nat}
      {text : String} {children copies : List Node}
      (childrenMoved : Listwise Moved children copies) :
      Moved (.mk kind named role start line text children)
        (.mk kind named role otherStart otherLine text copies)

mutual

@[refl] theorem Moved.refl : ∀ node : Node, Moved node node
  | .mk _ _ _ _ _ _ children => .mk (moved_refl children)

theorem moved_refl : ∀ nodes : List Node, Listwise Moved nodes nodes
  | [] => .nil
  | node :: rest => .cons (Moved.refl node) (moved_refl rest)

end

mutual

theorem Moved.symm : ∀ {node copy : Node}, Moved node copy → Moved copy node
  | _, _, .mk childrenMoved => .mk (moved_symm childrenMoved)

theorem moved_symm :
    ∀ {nodes copies : List Node}, Listwise Moved nodes copies → Listwise Moved copies nodes
  | _, _, .nil => .nil
  | _, _, .cons head tail => .cons head.symm (moved_symm tail)

end

namespace Moved

variable {node copy : Node}

theorem kind_eq (moved : Moved node copy) : node.kind = copy.kind := by
  cases moved
  rfl

theorem role_eq (moved : Moved node copy) : node.role = copy.role := by
  cases moved
  rfl

theorem text_eq (moved : Moved node copy) : node.text = copy.text := by
  cases moved
  rfl

theorem children (moved : Moved node copy) : Listwise Moved node.children copy.children := by
  cases moved with
  | mk childrenMoved => exact childrenMoved

theorem child? (moved : Moved node copy) (role : String) :
    Option.Rel Moved (node.child? role) (copy.child? role) :=
  moved.children.find? fun _ _ childMoved => by rw [childMoved.role_eq]

end Moved
end Node

/-! ## Editions -/

open Node

/-- How the files of another edition differ: in the spelling of types, and in where the nodes of
each file stand. -/
structure Revision where
  spelling : Spelling
  move : Path → Nat → Nat

namespace Revision

/-- Nothing is revised. -/
def same : Revision := ⟨.same, fun _ start => start⟩

/-- What is revised in the file at a path. -/
abbrev inFile (revision : Revision) (path : Path) : Change :=
  ⟨revision.spelling, fun start other => other = revision.move path start⟩

/-- What is revised wherever the nodes stand. -/
abbrev anywhere (revision : Revision) : Change := ⟨revision.spelling, fun _ _ => True⟩

end Revision

/-- A module is that of its file where nothing is revised. -/
theorem SourceModule.revised_same (source : SourceModule) (path : Path) :
    source.Revised (Revision.same.inFile path) source :=
  @Revised.refl (fun start other => other = start) (fun _ => rfl) source

/-- A declaration is that of its file where nothing is revised. -/
theorem Declaration.revised_same (declaration : Declaration) (path : Path) :
    declaration.Revised (Revision.same.inFile path) declaration :=
  @Revised.refl (fun start other => other = start) (fun _ => rfl) declaration

mutual

/-- Syntax that is moved is only revised in its places. -/
theorem Node.Moved.revised : ∀ {node copy : Node}, Moved node copy →
    ∀ above, Node.Revised Revision.same.anywhere above node copy
  | _, _, .mk childrenMoved, _ =>
    .mk trivial (.inl (.refl _ _ _ _)) (.inl childrenMoved.length_eq.symm)
      (.inr Spelling.isSame_same) (moved_revised childrenMoved _)

theorem Node.moved_revised : ∀ {nodes copies : List Node}, Listwise Moved nodes copies →
    ∀ above, Node.RevisedAll Revision.same.anywhere above nodes copies
  | _, _, .nil, _ => .nil
  | _, _, .cons head tail, above => .cons (head.revised above) (moved_revised tail above)

end

/-!
## Types

Two runs that meet the same types number their cells in different ways.  Links tell which cells, and
which lists of parameter values, stand for the same in both.  Types are alike when they are built in
the same way from linked cells and from nodes that stand for each other.  All that is ever read off
a type, its cells and the spelling of its texts apart, is the same of types that are alike.
-/

/-! ### Parts of types -/

inductive Property.Like {τ : Type} (spelling : Spelling) (relation : τ → τ → Prop) :
    Property τ → Property τ → Prop where
  | mk {name : String} {isOptional : Bool} {type other : τ} (related : relation type other)
      (fixed : spelling.Fixed name) :
      Like spelling relation ⟨name, isOptional, type⟩ ⟨name, isOptional, other⟩

inductive Parameter.Like {τ : Type} (spelling : Spelling) (relation : τ → τ → Prop) :
    Parameter τ → Parameter τ → Prop where
  | mk {name : String} {isOptional isRest : Bool} {form : ParameterForm} {type other : τ}
      {bound others : List (Property τ)}
      (related : relation type other)
      (boundRelated : Listwise (Property.Like spelling relation) bound others)
      (fixed : spelling.Fixed name) :
      Like spelling relation ⟨name, type, isOptional, isRest, bound, form⟩
        ⟨name, other, isOptional, isRest, others, form⟩

inductive Signature.Like {τ : Type} (spelling : Spelling) (relation : τ → τ → Prop) :
    Signature τ → Signature τ → Prop where
  | mk {parameters others : List (Parameter τ)} {returns other : τ}
      (parametersRelated : Listwise (Parameter.Like spelling relation) parameters others)
      (related : relation returns other) :
      Like spelling relation ⟨parameters, returns⟩ ⟨others, other⟩

inductive Members.Like {τ : Type} (spelling : Spelling) (relation : τ → τ → Prop) :
    Members τ → Members τ → Prop where
  | mk {properties otherProperties : List (Property τ)}
      {signatures otherSignatures : List (Signature τ)}
      (propertiesRelated : Listwise (Property.Like spelling relation) properties otherProperties)
      (signaturesRelated :
        Listwise (Signature.Like spelling relation) signatures otherSignatures) :
      Like spelling relation ⟨properties, signatures⟩ ⟨otherProperties, otherSignatures⟩

/-- Scopes in a module and in that of its other edition, with related values for the same
parameters, while linked lists of parameters are being bound. -/
inductive Scope.Like {τ : Type} (revision : Revision) (relation : τ → τ → Prop)
    (lists : Nat → Nat → Prop) : Scope τ → Scope τ → Prop where
  | mk {source copy : SourceModule} {parameters others : List (String × τ)}
      {pending other : Option Nat}
      (parametersRelated :
        Listwise (Assigned revision.spelling.nameable relation) parameters others)
      (pendingLinked : Option.Rel lists pending other)
      (revised : source.Revised (revision.inFile source.path) copy) :
      Like revision relation lists ⟨source, parameters, pending⟩ ⟨copy, others, other⟩

/-- Nothing but places is revised in a type that is moved. -/
theorem Node.Moved.copiedType {node copy : Node} (moved : Moved node copy) :
    CopiedType Revision.same.anywhere node copy :=
  ⟨(moved.revised "").copied, .inl ⟨moved.text_eq, fun _ => .inl moved.text_eq⟩⟩

/-- Members from the same places of a module and of its other edition. -/
inductive MemberSource.Like {τ : Type} (revision : Revision) (relation : τ → τ → Prop)
    (lists : Nat → Nat → Prop) : MemberSource τ → MemberSource τ → Prop where
  | known {members others : Members τ}
      (related : Members.Like revision.spelling relation members others) :
      Like revision relation lists (.known members) (.known others)
  | body {node copy : Node} {scope other : Scope τ}
      (copied : Node.Copied revision.anywhere node copy)
      (related : Scope.Like revision relation lists scope other) :
      Like revision relation lists (.body node scope) (.body copy other)
  | interface {first copy : Node} {declarations copies : List Declaration} {scope other : Scope τ}
      (related : Scope.Like revision relation lists scope other)
      (placed : copy.start = revision.move scope.source.path first.start)
      (declared : Listwise (Declaration.Revised revision.anywhere) declarations copies) :
      Like revision relation lists (.interface first declarations scope)
        (.interface copy copies other)
  | class {declaration copy : Node} {scope other : Scope τ}
      (related : Scope.Like revision relation lists scope other)
      (placed : copy.start = revision.move scope.source.path declaration.start)
      (copied : Node.Copied revision.anywhere declaration copy) :
      Like revision relation lists (.class declaration scope) (.class copy other)

/-! ### Types that are alike -/

/-- Which cells and which lists of parameter values of one session stand for those of another. -/
structure Links where
  cells : Nat → Nat → Prop
  lists : Nat → Nat → Prop

/-- There are at least the links of the first. -/
structure Links.Below (links more : Links) : Prop where
  cells : ∀ cell other, links.cells cell other → more.cells cell other
  lists : ∀ list other, links.lists list other → more.lists list other

/-- Types that are built in the same way from linked cells. -/
inductive Alike (revision : Revision) (links : Links) : TypeTerm → TypeTerm → Prop where
  | primitive {name other : String} (spelled : revision.spelling.spelled name other) :
      Alike revision links (.primitive name) (.primitive other)
  | literal {value other : String} (spelled : revision.spelling.spelled value other) :
      Alike revision links (.literal value) (.literal other)
  | verbatim {code other : String} (spelled : revision.spelling.spelled code other) :
      Alike revision links (.verbatim code) (.verbatim other)
  | array {element other : TypeTerm} (related : Alike revision links element other) :
      Alike revision links (.array element) (.array other)
  | tuple {elements others : List TypeTerm}
      (related : Listwise (Alike revision links) elements others) :
      Alike revision links (.tuple elements) (.tuple others)
  | union {label : String} {members others : List TypeTerm}
      (related : Listwise (Alike revision links) members others)
      (fixed : revision.spelling.Fixed label) :
      Alike revision links (.union label members) (.union label others)
  | intersection {label : String} {members others : List TypeTerm}
      (related : Listwise (Alike revision links) members others)
      (fixed : revision.spelling.Fixed label) :
      Alike revision links (.intersection label members) (.intersection label others)
  | function {label : String} {signatures others : List (Signature TypeTerm)}
      (related :
        Listwise (Signature.Like revision.spelling (Alike revision links)) signatures others)
      (fixed : revision.spelling.Fixed label) :
      Alike revision links (.function label signatures) (.function label others)
  | object {cell otherCell : Nat} {code otherCode : String} {name : Option String}
      {source other : MemberSource TypeTerm}
      (linked : links.cells cell otherCell)
      (related : MemberSource.Like revision (Alike revision links) links.lists source other)
      (spelled : revision.spelling.spelled code otherCode)
      (fixed : ∀ known, name = some known → revision.spelling.Fixed known) :
      Alike revision links (.object cell code name source) (.object otherCell otherCode name other)
  | reference {cell otherCell : Nat} {code otherCode name otherName : String}
      {scope other : Scope TypeTerm} {arguments copies : List Node}
      (linked : links.cells cell otherCell)
      (related : Scope.Like revision (Alike revision links) links.lists scope other)
      (written : Listwise (Node.CopiedType revision.anywhere) arguments copies)
      (spelled : revision.spelling.spelled code otherCode)
      (names : revision.spelling.Names name otherName) :
      Alike revision links (.reference cell code name scope arguments)
        (.reference otherCell otherCode otherName other copies)

/-! ### More links -/

section Mono

variable {revision : Revision} {links more : Links}

mutual

theorem Alike.mono (below : links.Below more) :
    ∀ {type other : TypeTerm}, Alike revision links type other → Alike revision more type other
  | _, _, .primitive spelled => .primitive spelled
  | _, _, .literal spelled => .literal spelled
  | _, _, .verbatim spelled => .verbatim spelled
  | _, _, .array related => .array (related.mono below)
  | _, _, .tuple related => .tuple (alikes_mono below related)
  | _, _, .union related fixed => .union (alikes_mono below related) fixed
  | _, _, .intersection related fixed => .intersection (alikes_mono below related) fixed
  | _, _, .function related fixed => .function (signatures_mono below related) fixed
  | _, _, .object linked related spelled fixed =>
    .object (below.cells _ _ linked) (source_mono below related) spelled fixed
  | _, _, .reference linked related written spelled names =>
    .reference (below.cells _ _ linked) (scope_mono below related) written spelled names

theorem alikes_mono (below : links.Below more) :
    ∀ {types others : List TypeTerm},
      Listwise (Alike revision links) types others → Listwise (Alike revision more) types others
  | _, _, .nil => .nil
  | _, _, .cons head tail => .cons (head.mono below) (alikes_mono below tail)

theorem values_mono {keys : String → String → Prop} (below : links.Below more) :
    ∀ {values others : List (String × TypeTerm)},
      Listwise (Assigned keys (Alike revision links)) values others →
        Listwise (Assigned keys (Alike revision more)) values others
  | _, _, .nil => .nil
  | _, _, .cons ⟨related, names⟩ tail => .cons ⟨related.mono below, names⟩ (values_mono below tail)

theorem properties_mono (below : links.Below more) :
    ∀ {properties others : List (Property TypeTerm)},
      Listwise (Property.Like revision.spelling (Alike revision links)) properties others →
        Listwise (Property.Like revision.spelling (Alike revision more)) properties others
  | _, _, .nil => .nil
  | _, _, .cons ⟨related, fixed⟩ tail =>
    .cons ⟨related.mono below, fixed⟩ (properties_mono below tail)

theorem parameters_mono (below : links.Below more) :
    ∀ {parameters others : List (Parameter TypeTerm)},
      Listwise (Parameter.Like revision.spelling (Alike revision links)) parameters others →
        Listwise (Parameter.Like revision.spelling (Alike revision more)) parameters others
  | _, _, .nil => .nil
  | _, _, .cons ⟨related, bound, fixed⟩ tail =>
    .cons ⟨related.mono below, properties_mono below bound, fixed⟩ (parameters_mono below tail)

theorem signatures_mono (below : links.Below more) :
    ∀ {signatures others : List (Signature TypeTerm)},
      Listwise (Signature.Like revision.spelling (Alike revision links)) signatures others →
        Listwise (Signature.Like revision.spelling (Alike revision more)) signatures others
  | _, _, .nil => .nil
  | _, _, .cons ⟨parameters, related⟩ tail =>
    .cons ⟨parameters_mono below parameters, related.mono below⟩ (signatures_mono below tail)

theorem scope_mono (below : links.Below more) :
    ∀ {scope other : Scope TypeTerm},
      Scope.Like revision (Alike revision links) links.lists scope other →
        Scope.Like revision (Alike revision more) more.lists scope other
  | _, _, ⟨parameters, pending, revised⟩ =>
    ⟨values_mono below parameters, optionRel_mono pending below.lists, revised⟩

theorem source_mono (below : links.Below more) :
    ∀ {source other : MemberSource TypeTerm},
      MemberSource.Like revision (Alike revision links) links.lists source other →
        MemberSource.Like revision (Alike revision more) more.lists source other
  | _, _, .known ⟨properties, signatures⟩ =>
    .known ⟨properties_mono below properties, signatures_mono below signatures⟩
  | _, _, .body inner related => .body inner (scope_mono below related)
  | _, _, .interface related placed declared =>
    .interface (scope_mono below related) placed declared
  | _, _, .class related placed inner => .class (scope_mono below related) placed inner

end

end Mono

/-- A relation that further links keep. -/
def Persists {α β : Type} (relation : Links → α → β → Prop) : Prop :=
  ∀ links more, links.Below more → ∀ value other, relation links value other →
    relation more value other

/-- Values of type parameters that are alike. -/
abbrev AlikeValues (revision : Revision) (links : Links) :
    List (String × TypeTerm) → List (String × TypeTerm) → Prop :=
  Listwise (Assigned revision.spelling.nameable (Alike revision links))

/-- Properties with types that are alike. -/
abbrev AlikeProperty (revision : Revision) (links : Links) :
    Property TypeTerm → Property TypeTerm → Prop :=
  Property.Like revision.spelling (Alike revision links)

/-- Parameters with types that are alike. -/
abbrev AlikeParameter (revision : Revision) (links : Links) :
    Parameter TypeTerm → Parameter TypeTerm → Prop :=
  Parameter.Like revision.spelling (Alike revision links)

/-- Signatures with types that are alike. -/
abbrev AlikeSignature (revision : Revision) (links : Links) :
    Signature TypeTerm → Signature TypeTerm → Prop :=
  Signature.Like revision.spelling (Alike revision links)

/-- Members with types that are alike. -/
abbrev AlikeMembers (revision : Revision) (links : Links) :
    Members TypeTerm → Members TypeTerm → Prop :=
  Members.Like revision.spelling (Alike revision links)

/-- Scopes with parameters that have values that are alike. -/
abbrev AlikeScope (revision : Revision) (links : Links) :
    Scope TypeTerm → Scope TypeTerm → Prop :=
  Scope.Like revision (Alike revision links) links.lists

variable {revision : Revision}

theorem persists_alike : Persists (Alike revision) := fun _ _ below _ _ => Alike.mono below

theorem persists_property : Persists (AlikeProperty revision) := by
  rintro links more below _ _ ⟨related, fixed⟩
  exact ⟨related.mono below, fixed⟩

theorem persists_parameter : Persists (AlikeParameter revision) := by
  rintro links more below _ _ ⟨related, bound, fixed⟩
  exact ⟨related.mono below, properties_mono below bound, fixed⟩

theorem persists_signature : Persists (AlikeSignature revision) := by
  rintro links more below _ _ ⟨parameters, related⟩
  exact ⟨parameters_mono below parameters, related.mono below⟩

theorem persists_members : Persists (AlikeMembers revision) := by
  rintro links more below _ _ ⟨properties, signatures⟩
  exact ⟨properties_mono below properties, signatures_mono below signatures⟩

/-- A relation that asks for no links. -/
theorem persists_const {α β : Type} (relation : α → β → Prop) : Persists fun _ => relation :=
  fun _ _ _ _ _ => id

theorem Persists.option {α β : Type} {relation : Links → α → β → Prop}
    (persists : Persists relation) :
    Persists fun links => Option.Rel (relation links) :=
  fun links more below _ _ related => optionRel_mono related (persists links more below)

/-! ### What is read off types -/

namespace TypeTerm

variable {links : Links}

theorem kind_eq {type other : TypeTerm} (alike : Alike revision links type other) :
    type.kind = other.kind := by
  cases alike <;> rfl

theorem needsParentheses_eq {type other : TypeTerm} (alike : Alike revision links type other) :
    type.needsParentheses = other.needsParentheses := by
  cases alike <;> rfl

open Spelling

theorem fixed_parameterLabel {spelling : Spelling} {name : String} (fixed : spelling.Fixed name)
    (isRest isOptional : Bool) :
    spelling.Fixed (parameterLabel name isRest isOptional) := by
  unfold parameterLabel
  cases isRest <;> cases isOptional
  all_goals exact enclosed fixed (by decide) (by decide)

mutual

/-- The texts of types that are alike stand for each other. -/
theorem text_spelled : ∀ {type other : TypeTerm}, Alike revision links type other →
    revision.spelling.spelled type.text other.text
  | _, _, .primitive spelled => revision.spelling.collapse spelled
  | _, _, .literal spelled => revision.spelling.collapse spelled
  | _, _, .verbatim spelled => revision.spelling.collapse spelled
  | _, _, .array related => by
    have inner := text_spelled related
    rw [text, text, needsParentheses_eq related]
    refine revision.spelling.collapse ?_
    split
    · exact revision.spelling.append (enclosed inner (by decide) (by decide))
        (revision.spelling.own (by decide)) (.inr (by decide))
    · exact revision.spelling.append inner (revision.spelling.own (by decide)) (.inr (by decide))
  | _, _, .tuple related => by
    rw [text, text]
    exact revision.spelling.collapse (enclosed (join (texts_spelled related)
      (by decide)) (by decide) (by decide))
  | _, _, .union related fixed => by
    rw [text, text]
    refine revision.spelling.collapse ?_
    split
    · exact join (texts_spelled related) (by decide)
    · exact fixed
  | _, _, .intersection related fixed => by
    rw [text, text]
    refine revision.spelling.collapse ?_
    split
    · exact join (texts_spelled related) (by decide)
    · exact fixed
  | _, _, .function related fixed => by
    rw [text, text]
    refine revision.spelling.collapse ?_
    split
    · exact firstSignatureText_spelled related
    · exact fixed
  | _, _, .object _ _ spelled _ => by
    rw [text, text]
    exact revision.spelling.collapse spelled
  | _, _, .reference _ _ _ spelled _ => by
    rw [text, text]
    exact revision.spelling.collapse spelled

theorem texts_spelled :
    ∀ {types others : List TypeTerm}, Listwise (Alike revision links) types others →
      Listwise revision.spelling.spelled (texts types) (texts others)
  | _, _, .nil => .nil
  | _, _, .cons head tail => .cons (text_spelled head) (texts_spelled tail)

theorem firstSignatureText_spelled :
    ∀ {signatures others : List (Signature TypeTerm)},
      Listwise (AlikeSignature revision links) signatures others →
        revision.spelling.spelled (firstSignatureText signatures) (firstSignatureText others)
  | _, _, .nil => revision.spelling.own (by decide)
  | _, _, .cons ⟨parameters, related⟩ _ => by
    rw [firstSignatureText, firstSignatureText, signatureText, signatureText]
    have mark : IsMark ") => " := by decide
    refine parted (revision.spelling.append (revision.spelling.own (by decide))
      (join (parameterTexts_spelled parameters) (by decide)) (.inl (by decide)))
      (text_spelled related) mark

theorem parameterTexts_spelled :
    ∀ {parameters others : List (Parameter TypeTerm)},
      Listwise (AlikeParameter revision links) parameters others →
        Listwise revision.spelling.spelled (parameterTexts parameters) (parameterTexts others)
  | _, _, .nil => .nil
  | _, _, .cons ⟨related, _, fixed⟩ tail => by
    rw [parameterTexts, parameterTexts]
    exact .cons (parted (fixed_parameterLabel fixed _ _) (text_spelled related)
      (by decide)) (parameterTexts_spelled tail)

end

end TypeTerm

end ModuleAtlas
