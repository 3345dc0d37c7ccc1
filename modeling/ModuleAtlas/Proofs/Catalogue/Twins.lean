import ModuleAtlas.Catalogue
import ModuleAtlas.Proofs.Shape.Twins

/-!
# Descriptions in twin runs

The exports of a module are the same in both editions, and so are their shapes, but for the spelling
of types.  Where both editions are one, that is so in all sessions that are collecting the members
of the same declarations, whatever has been described in them before.
-/

namespace ModuleAtlas

open Node Session Spelling ModuleAtlas.Types

variable {edition : Edition} {links : Links}

namespace Types

/-! ## Exports -/

section Exports

variable {modules : SourceModule → SourceModule → Prop}
  {declared : Path → Declaration → Declaration → Prop}

/-- The same export in both editions. -/
structure ExportAlike (modules : SourceModule → SourceModule → Prop)
    (declared : Path → Declaration → Declaration → Prop) (found other : Export) : Prop where
  name : found.name = other.name
  sources : modules found.source other.source
  declaration : declared found.source.path found.declaration other.declaration

/-- Where all is taken for itself, the exports are the same. -/
theorem eq_of_exportAlike {found other : Export}
    (alike : ExportAlike Eq (fun _ => Eq) found other) :
    found = other := by
  obtain ⟨name, sources, declaration⟩ := alike
  cases found
  cases other
  cases name
  cases sources
  cases declaration
  rfl

/-- The same exports in both editions, and the same modules seen. -/
structure ListedAlike (modules : SourceModule → SourceModule → Prop)
    (declared : Path → Declaration → Declaration → Prop)
    (listed other : List Export × List Path) : Prop where
  exports : Listwise (ExportAlike modules declared) listed.1 other.1
  seen : listed.2 = other.2

variable (paired : Paired edition modules declared) {source copy : SourceModule}

include paired

theorem followed_namedExports (sources : modules source copy) (names : List (String × String)) :
    Followed edition links (fun _ => Listwise (ExportAlike modules declared))
      (namedExports source names) (namedExports copy names) := by
  induction names generalizing links with
  | nil => exact followed_pure .nil
  | cons name rest ih =>
    obtain ⟨exported, imported⟩ := name
    refine (followed_findExport paired sources imported).bind fun more _ found answer both => ?_
    have later : ∀ here others : List Export, Listwise (ExportAlike modules declared) here others →
        Followed edition more (fun _ => Listwise (ExportAlike modules declared))
          (do return here ++ (← namedExports source rest))
          (do return others ++ (← namedExports copy rest)) :=
      fun _ _ here => ih.map fun _ _ _ _ tail => here.append tail
    cases both with
    | none => exact later [] [] .nil
    | some both =>
      exact later _ _ (both.declarations.map fun _ _ declaration =>
        ⟨rfl, both.sources, declaration⟩)

/-- What a re-export of everything hands on. -/
theorem handed_alike (sources : modules source copy) {all others : List Export}
    (related : Listwise (ExportAlike modules declared) all others) :
    Listwise (ExportAlike modules declared)
      (all.filter fun found =>
        found.name != "default" && !(source.exports.map (·.1)).contains found.name)
      (others.filter fun found =>
        found.name != "default" && !(copy.exports.map (·.1)).contains found.name) := by
  have names : source.exports.map (·.1) = copy.exports.map (·.1) := by
    refine (paired.exports sources).map_eq ?_
    rintro _ _ ⟨_⟩
    rfl
  rw [names]
  exact related.filter fun _ _ both => by rw [both.name]

/-- Re-exports are gone through side by side. -/
theorem followed_exportsAmong
    {list other : List Path → SourceModule → Task Session (List Export × List Path)}
    (lists : ∀ links seen source copy, modules source copy →
      Followed edition links (fun _ => ListedAlike modules declared) (list seen source)
        (other seen copy))
    (sources : modules source copy) (seen : List Path) (entries : List ReExport) :
    Followed edition links (fun _ => ListedAlike modules declared)
      (exportsAmong list source seen entries) (exportsAmong other copy seen entries) := by
  induction entries generalizing links seen with
  | nil => exact followed_pure ⟨.nil, rfl⟩
  | cons entry rest ih =>
    have later : ∀ links (here others : List Export) (seen : List Path),
        Listwise (ExportAlike modules declared) here others →
        Followed edition links (fun _ => ListedAlike modules declared)
          (do
            let more ← exportsAmong list source seen rest
            return (here ++ more.1, more.2))
          (do
            let more ← exportsAmong other copy seen rest
            return (others ++ more.1, more.2)) :=
      fun _ _ _ seen here => (ih seen).map fun _ _ _ _ listed =>
        ⟨here.append listed.exports, listed.seen⟩
    unfold exportsAmong
    refine (followed_load paired entry.specifier (paired.path sources)).bind ?_
    intro more _ target twin both
    cases both with
    | none => exact later more [] [] seen .nil
    | some targets =>
      dsimp only
      split
      · exact later more [] [] seen .nil
      · refine (lists more seen _ _ targets).bind ?_
        rintro most _ ⟨all, after⟩ ⟨others, _⟩ ⟨related, rfl⟩
        exact later most _ _ after (handed_alike paired sources related)
      · exact (followed_namedExports paired targets _).bind fun most _ here others related =>
          later most here others seen related

/-- Related modules list related exports, whatever fuel is left. -/
theorem followed_exportsWith (fuel : Nat) (seen : List Path) (sources : modules source copy) :
    Followed edition links (fun _ => ListedAlike modules declared) (exportsWith fuel seen source)
      (exportsWith fuel seen copy) := by
  induction fuel generalizing links seen source copy with
  | zero => exact followed_pure ⟨.nil, rfl⟩
  | succ fuel ih =>
    unfold exportsWith
    rw [← paired.path sources, ← paired.reExports sources]
    split
    · exact followed_pure ⟨.nil, rfl⟩
    · have own : Listwise (ExportAlike modules declared)
          (source.exports.map fun entry => ⟨entry.1, entry.2, source⟩)
          (copy.exports.map fun entry => ⟨entry.1, entry.2, copy⟩) := by
        refine (paired.exports sources).map ?_
        rintro _ _ ⟨declaration⟩
        exact ⟨rfl, sources, declaration⟩
      exact (followed_exportsAmong paired (fun _ seen _ _ both => ih seen both) sources _ _).map
        fun _ _ _ _ listed => ⟨own.append listed.exports, listed.seen⟩

/-- A module has the same exports in both editions, in the same order. -/
theorem followed_moduleExports (sources : modules source copy) :
    Followed edition links (fun _ => Listwise (ExportAlike modules declared))
      (moduleExports source) (moduleExports copy) := by
  refine (followed_sizeBound paired.faithful).bind ?_
  rintro more _ bound _ rfl
  exact (followed_exportsWith paired _ [] sources).map fun _ _ _ _ listed => listed.exports

end Exports

/-! ## Declarations -/

section Declarations

variable {source copy : SourceModule} {declaration other : Declaration}

/-- The scope at the top of a module has no parameters. -/
theorem alikeScope_top (sources : Sources edition source copy) :
    AlikeScope edition.revision links ⟨source, [], none⟩ ⟨copy, [], none⟩ :=
  ⟨.nil, .none, sources⟩

theorem isConstant_eq {change : Change} (revised : Declaration.Revised change declaration other) :
    isConstant declaration = isConstant other := by
  unfold isConstant
  rcases optionRel_cases revised.group with
    ⟨none, noOther⟩ | ⟨group, otherGroup, found, otherFound, copied⟩
  · rw [none, noOther]
  · rw [found, otherFound]
    have keyword : (group.child? "kind").map (fun keyword => keyword.text == "const") =
        (otherGroup.child? "kind").map fun keyword => keyword.text == "const" :=
      optionMap_eq (copied.child?_name "kind" (by decide) (by simp)) fun _ _ named => by
        rw [named.2.same]
    dsimp only
    rw [copied.kind_eq, keyword]

/-- A variable has related types in both editions. -/
theorem followed_variableType (sources : Sources edition source copy)
    (revised : Declaration.Revised edition.revision.anywhere declaration other) :
    Followed edition links (Alike edition.revision)
      (variableType declaration ⟨source, [], none⟩) (variableType other ⟨copy, [], none⟩) := by
  have copied := revised.node
  unfold variableType
  rcases optionRel_cases (copied.child?_type "type" (.inl rfl)) with
    ⟨none, noCopy⟩ | ⟨type, typeCopy, found, copyFound, written⟩
  · rw [none, noCopy]
    rcases optionRel_cases (copied.child?_read "value" (by decide)) with
      ⟨none, noCopy⟩ | ⟨value, valueCopy, found, copyFound, valueCopied⟩
    · rw [none, noCopy]
      exact followed_primitive (by decide)
    · rw [found, copyFound, isConstant_eq revised]
      exact followed_valueType (alikeScope_top sources) _ valueCopied
  · rw [found, copyFound]
    exact followed_typeOf (alikeScope_top sources) written

/-- The name of a type that is declared, as its own name or as the one that it is exported by. -/
theorem fixed_typeName {change : Change}
    (revised : Declaration.Revised change declaration other) (isType :
      Declaration.typeKinds.contains declaration.node.kind = true) :
    (if declaration.name == "default" then Node.textOf (declaration.node.child? "name")
        else declaration.name) =
      (if other.name == "default" then Node.textOf (other.node.child? "name") else other.name) ∧
    change.spelling.Fixed (if declaration.name == "default" then
      Node.textOf (declaration.node.child? "name") else declaration.name) := by
  have copied := revised.node
  have notParameter : declaration.node.kind ≠ "type_parameter" := by
    intro isParameter
    rw [isParameter] at isType
    cases isType
  rw [← revised.name, copied.textOf_eq "name" (by decide) fun _ => notParameter]
  refine ⟨rfl, ?_⟩
  split
  · rw [← copied.textOf_eq "name" (by decide) fun _ => notParameter]
    exact copied.fixed_textOf "name" (by decide) fun _ => notParameter
  · exact revised.fixed

/-- A declaration has types in both editions that are alike. -/
theorem followed_declarationType (sources : Sources edition source copy)
    (revised : Declaration.Revised (edition.revision.inFile source.path) declaration other) :
    Followed edition links (Alike edition.revision) (declarationType declaration source)
      (declarationType other copy) := by
  have inner := revised.mono fun _ _ _ => trivial
  have top : AlikeScope edition.revision links ⟨source, [], none⟩ ⟨copy, [], none⟩ :=
    alikeScope_top sources
  have alone : Listwise (Declaration.Revised (edition.revision.inFile source.path)) [declaration]
    [other] := .cons revised .nil
  have parameters : Listwise edition.revision.spelling.spelled
      ((typeParameters declaration.node).map parameterName)
      ((typeParameters other.node).map parameterName) :=
    (revised_typeParameters inner.node).map fun _ _ both =>
      edition.revision.spelling.spelled_of_nameable (nameable_parameterName both.1 both.2)
  have sameKind := revised_kind_eq revised
  unfold declarationType
  dsimp only
  rw [← sameKind]
  split
  · rename_i isType
    obtain ⟨same, fixed⟩ := fixed_typeName inner isType
    rw [← same]
    revert fixed
    generalize (if (declaration.name == "default") = true then
      Node.textOf (declaration.node.child? "name") else declaration.name) = name
    intro fixed
    split
    · rw [← revised.name]
      exact followed_declared sources alone .nil revised.fixed
    · refine followed_newReference top fixed.names ?_ .nil
      rw [parameters.isEmpty_eq]
      split
      · exact fixed
      · exact edition.revision.spelling.append
          (parted fixed (join parameters (by decide)) (by decide))
          (edition.revision.spelling.own (by decide)) (.inr (by decide))
  · split
    · exact followed_variableType sources inner
    · split
      · exact (followed_signature top inner.node).map fun _ _ _ _ related =>
          .function (.cons related .nil) (edition.revision.spelling.own (by decide))
      · split
        · rw [← revised.name]
          exact followed_declared sources alone .nil revised.fixed
        · exact followed_valueType top _ ⟨inner.node, inner.value⟩

end Declarations
end Types

/-! ## Shapes -/

namespace Simplifier

variable {simplifier : Simplifier} {visited others : List String}

theorem followed_simplify (presents : simplifier.Presents edition) {type twin : TypeTerm}
    (related : Alike edition.revision links type twin) (depth : Int)
    (inside : Listwise edition.revision.spelling.spelled visited others) :
    Followed edition links (fun _ => Shape.Spelled edition.revision.spelling)
      (simplifier.simplify depth visited type) (simplifier.simplify depth others twin) :=
  (((followed_shapeAt presents _ inside).1 links).here related).run' _

theorem followed_simplifySignature (presents : simplifier.Presents edition)
    {signature twin : Signature TypeTerm}
    (related : AlikeSignature edition.revision links signature twin) (depth : Int)
    (inside : Listwise edition.revision.spelling.spelled visited others) :
    Followed edition links (fun _ => Shape.Spelled edition.revision.spelling)
      (simplifier.simplifySignature depth visited signature)
      (simplifier.simplifySignature depth others twin) :=
  have shows := (followed_shapeAt presents _ inside).2 links
  (shows links (.refl links) signature twin related).run' _

end Simplifier

/-! ## Descriptions -/

namespace Catalogue

open Simplifier

/-- The text of a declaration that is shown as it is written. -/
def writtenText (declaration : Declaration) : String :=
  let node := declaration.node
  if classKinds.contains node.kind then classText declaration
  else
    match declaration.statement with
    | some statement =>
      if declaration.name == "default" && !Declaration.typeKinds.contains node.kind then
        withoutExport statement.text
      else withoutExport node.text
    | none => withoutExport node.text

/-- All but functions and variables are shown as they are written. -/
theorem declarationText_written
    (simplifier : Simplifier) (declaration : Declaration) (source : SourceModule) :
    declarationText simplifier declaration source =
      if functionKinds.contains declaration.node.kind then
        functionText simplifier declaration source
      else if declaration.node.kind == "variable_declarator" then do
        let type ← declarationType declaration source
        return keyword declaration ++ " " ++ declaration.name ++ ": "
          ++ (← simplifier.clean type.text)
      else return writtenText declaration := by
  unfold declarationText writtenText
  dsimp only
  split
  · rfl
  · split
    · rfl
    · split
      · rfl
      · cases declaration.statement with
        | none => rfl
        | some statement =>
          dsimp only
          split <;> rfl

/-- The texts of a declaration in both editions, which are the same where both are one.  Otherwise
they are left aside, as they are copied from the file with all comments. -/
def TextsAgree (spelling : Spelling) (declaration other : Declaration) (text otherText : String) :
    Prop :=
  spelling.IsSame → declaration = other → text = otherText

variable {simplifier : Simplifier} (presents : simplifier.Presents edition)
  {source copy : SourceModule} {declaration other : Declaration}

include presents

/-- A parameter as it is shown in the text of a function. -/
theorem followed_parameterText {parameter twin : Parameter TypeTerm}
    (related : AlikeParameter edition.revision links parameter twin) :
    Followed edition links (fun _ => edition.revision.spelling.spelled)
      (do
        let type ← simplifier.clean parameter.type.text
        return TypeTerm.parameterLabel parameter.name parameter.isRest parameter.isOptional ++ ": "
          ++ type)
      (do
        let type ← simplifier.clean twin.type.text
        return TypeTerm.parameterLabel twin.name twin.isRest twin.isOptional ++ ": " ++ type) := by
  obtain ⟨alike, _, fixed⟩ := related
  exact (followed_clean presents (TypeTerm.text_spelled alike)).map fun _ _ _ _ spelled =>
    parted (TypeTerm.fixed_parameterLabel fixed _ _) spelled (by decide)

variable (sources : Sources edition source copy)
  (revised : Declaration.Revised (edition.revision.inFile source.path) declaration other)

include sources revised

/-- A function has the same text in both editions, up to the spelling. -/
theorem followed_functionText :
    Followed edition links (fun _ => TextsAgree edition.revision.spelling declaration other)
      (functionText simplifier declaration source) (functionText simplifier other copy) := by
  have inner := revised.mono fun _ _ _ => trivial
  refine (followed_signature (alikeScope_top sources) inner.node).bind ?_
  rintro more below _ _ ⟨parameters, returns⟩
  refine (followed_mapM (persists_const _) parameters fun most further _ _ related =>
    followed_parameterText presents (persists_parameter more most further _ _ related)).bind ?_
  intro most further texts others textsSpelled
  refine (followed_clean presents (TypeTerm.text_spelled returns)).map ?_
  rintro _ _ text otherText spelled isSame rfl
  have sameTexts := (textsSpelled.mono fun _ _ => isSame.eq_of_spelled).eq
  rw [sameTexts, isSame.eq_of_spelled spelled]

/-- A declaration has the same text in both editions, up to the spelling. -/
theorem followed_declarationText :
    Followed edition links (fun _ => TextsAgree edition.revision.spelling declaration other)
      (declarationText simplifier declaration source) (declarationText simplifier other copy) := by
  rw [declarationText_written, declarationText_written, ← revised_kind_eq revised]
  split
  · exact followed_functionText presents sources revised
  · split
    · refine (followed_declarationType sources revised).bind fun more below type twin related => ?_
      refine (followed_clean presents (TypeTerm.text_spelled related)).map ?_
      rintro _ _ text otherText spelled isSame rfl
      rw [isSame.eq_of_spelled spelled]
    · exact followed_pure fun _ => congrArg writtenText

/-- A declaration has the same shape in both editions, but for the spelling of types. -/
theorem followed_declarationShape :
    Followed edition links (fun _ => Shape.Spelled edition.revision.spelling)
      (declarationShape simplifier declaration source)
      (declarationShape simplifier other copy) := by
  have inner := revised.mono fun _ _ _ => trivial
  unfold declarationShape
  rw [← revised_kind_eq revised]
  split
  · refine (followed_signature (alikeScope_top sources) inner.node).bind ?_
    exact fun more _ _ _ related => followed_simplifySignature presents related 0 .nil
  · refine (followed_declarationType sources revised).bind ?_
    exact fun more _ _ _ related => followed_simplify presents related 0 .nil

end Catalogue
end ModuleAtlas
