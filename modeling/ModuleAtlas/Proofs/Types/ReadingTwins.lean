import ModuleAtlas.Proofs.Session.Twins

/-!
# Reading types in twin runs

What is read off a node and its copy, in scopes that are alike, is alike.  Each form of type and of
value picks its children in its own way, and each way passes over the comments that may stand there:
children that are asked for by role or by kind are no comments, the first or the last child is none
where it counts, and where all children count, none is a comment.  Reading looks at the texts of
parameter values and hands the values on; it makes new cells and looks into none.
-/

namespace ModuleAtlas

open Node

namespace Node

variable {change : Change} {node copy : Node}

/-- The texts of types that are not put together from their parts are read. -/
theorem CopiedType.text (written : CopiedType change node copy)
    (isRead : composedKinds.contains copy.kind = false) :
    TypeText change.spelling node copy := by
  refine written.2.resolve_right fun composed => ?_
  rw [written.1.kind_eq, isRead] at composed
  cases composed

end Node

namespace Types

open Session Spelling

variable {edition : Edition} {links more : Links}

/-! ## New types -/

theorem followed_newObject {source twin : MemberSource TypeTerm} {code otherCode : String}
    {name : Option String}
    (sources :
      MemberSource.Like edition.revision (Alike edition.revision links) links.lists source twin)
    (spelled : edition.revision.spelling.spelled code otherCode)
    (fixed : ∀ known, name = some known → edition.revision.spelling.Fixed known) :
    Followed edition links (Alike edition.revision) (newObject code name source)
      (newObject otherCode name twin) :=
  followed_newCell.map fun _ below _ _ linked =>
    .object linked (source_mono below sources) spelled fixed

section Scopes

variable {scope twin : Scope TypeTerm}

/-- Related references are made with linked cells. -/
theorem followed_newReference {arguments copies : List Node}
    {name otherName code otherCode : String}
    (scopes : AlikeScope edition.revision links scope twin)
    (names : edition.revision.spelling.Names name otherName)
    (spelled : edition.revision.spelling.spelled code otherCode)
    (written : Listwise (CopiedType edition.revision.anywhere) arguments copies) :
    Followed edition links (Alike edition.revision) (newReference scope name code arguments)
      (newReference twin otherName otherCode copies) := by
  obtain ⟨parameters, _, revised⟩ := scopes
  have shown : edition.revision.spelling.spelled (if code.isEmpty then name else code)
      (if otherCode.isEmpty then otherName else otherCode) := by
    rw [isEmpty_eq spelled]
    split
    · exact names.spelled
    · exact spelled
  exact followed_newCell.map fun _ below _ _ linked =>
    .reference linked ⟨values_mono below parameters, .none, revised⟩ written shown names

/-- Only the texts of parameter values are put into the text of a node. -/
theorem substituted_spelled {parameters others : List (String × TypeTerm)}
    (related : AlikeValues edition.revision links parameters others) {code otherCode : String}
    (spelled : edition.revision.spelling.spelled code otherCode) :
    Outcomes edition.revision.spelling.spelled (substituted parameters code)
      (substituted others otherCode) := by
  unfold substituted
  induction related generalizing code otherCode with
  | nil => exact .ok spelled
  | cons head _ ih =>
    obtain ⟨related, names⟩ := head
    have replaced :=
      edition.revision.spelling.replace names (TypeTerm.text_spelled related) spelled
    rw [List.foldlM_cons, List.foldlM_cons]
    dsimp only
    revert replaced
    generalize Regex.Expression.replace _ _ code = outcome
    generalize Regex.Expression.replace _ _ otherCode = answer
    intro replaced
    cases replaced with
    | error fault => exact .error fault
    | ok spelled => exact ih spelled

/-- Code is normalised alike, up to the spelling. -/
theorem followed_codeOf {node copy : Node} (scopes : AlikeScope edition.revision links scope twin)
    (spelled : edition.revision.spelling.spelled node.text copy.text) :
    Followed edition links (fun _ => edition.revision.spelling.spelled) (codeOf scope node)
      (codeOf twin copy) := by
  obtain ⟨parameters, _, _⟩ := scopes
  have replaced := substituted_spelled parameters spelled
  unfold codeOf
  dsimp only
  revert replaced
  generalize substituted _ node.text = outcome
  generalize substituted _ copy.text = answer
  intro replaced
  cases replaced with
  | error fault => exact followed_fail _
  | ok spelled => exact followed_pure spelled

end Scopes

/-! ## Unions -/

theorem alike_unionOf {types others : List TypeTerm}
    (related : Listwise (Alike edition.revision links) types others) :
    Alike edition.revision links (unionOf types) (unionOf others) := by
  have distinct : Listwise (Assigned edition.revision.spelling.spelled
        (Alike edition.revision links))
      (types.foldl (fun (found : List (String × TypeTerm)) type =>
        if Keyed.has type.text found then found else found ++ [(type.text, type)]) [])
      (others.foldl (fun (found : List (String × TypeTerm)) type =>
        if Keyed.has type.text found then found else found ++ [(type.text, type)]) []) := by
    refine related.foldl .nil fun found otherFound type other foundRelated alike => ?_
    have spelled := TypeTerm.text_spelled alike
    rw [foundRelated.has_assigned fun _ _ known => edition.revision.spelling.unique known spelled]
    split
    · exact foundRelated
    · exact foundRelated.append (.cons ⟨alike, spelled⟩ .nil)
  have members : Listwise (Alike edition.revision links) (List.map Prod.snd _)
      (List.map Prod.snd _) :=
    distinct.map fun _ _ ⟨alike, _⟩ => alike
  have fixed : edition.revision.spelling.Fixed "" := edition.revision.spelling.own (by decide)
  unfold unionOf
  dsimp only
  revert members
  generalize List.map _ _ = first
  generalize List.map _ _ = second
  intro members
  cases members with
  | nil => exact .union .nil fixed
  | cons head tail =>
    cases tail with
    | nil => exact head
    | cons next rest => exact .union (.cons head (.cons next rest)) fixed

/-! ## Readers -/

theorem alike_primitive {name : String} (own : name ∈ ownTexts) :
    Alike edition.revision links (.primitive name) (.primitive name) :=
  .primitive (edition.revision.spelling.own own)

theorem followed_primitive {name : String} (own : name ∈ ownTexts) :
    Followed edition links (Alike edition.revision) (pure (.primitive name))
      (pure (.primitive name)) :=
  followed_pure (alike_primitive own)

/-- Two ways to read nodes and their copies that come to what is alike. -/
structure ReadAlike (edition : Edition) (links : Links) (read other : Reader) : Prop where
  type : ∀ more, links.Below more → ∀ node copy,
    CopiedType edition.revision.anywhere node copy →
      Followed edition more (Alike edition.revision) (read .type node) (other .type copy)
  value : ∀ more, links.Below more → ∀ constant node copy,
    CopiedValue edition.revision.anywhere node copy →
      Followed edition more (Alike edition.revision) (read (.value constant) node)
        (other (.value constant) copy)

section Readers

variable {read other : Reader} {node copy : Node} {scope twin : Scope TypeTerm} {change : Change}

section

variable (reads : ReadAlike edition links read other)

include reads

theorem ReadAlike.mono (below : links.Below more) :
    ReadAlike edition more read other :=
  ⟨fun _ further => reads.type _ (below.trans further),
    fun _ further => reads.value _ (below.trans further)⟩

theorem ReadAlike.ofType (written : CopiedType edition.revision.anywhere node copy) :
    Followed edition links (Alike edition.revision) (read .type node) (other .type copy) :=
  reads.type links (.refl links) node copy written

theorem ReadAlike.ofValue (constant : Bool)
    (copied : CopiedValue edition.revision.anywhere node copy) :
    Followed edition links (Alike edition.revision) (read (.value constant) node)
      (other (.value constant) copy) :=
  reads.value links (.refl links) constant node copy copied

theorem ReadAlike.eachType {nodes copies : List Node}
    (written : Listwise (CopiedType edition.revision.anywhere) nodes copies) :
    Followed edition links (fun links => Listwise (Alike edition.revision links))
      (nodes.mapM (read .type)) (copies.mapM (other .type)) :=
  followed_mapM persists_alike written fun _ below node copy => reads.type _ below node copy

theorem ReadAlike.eachValue {nodes copies : List Node} (constant : Bool)
    (copied : Listwise (CopiedValue edition.revision.anywhere) nodes copies) :
    Followed edition links (fun links => Listwise (Alike edition.revision links))
      (nodes.mapM (read (.value constant))) (copies.mapM (other (.value constant))) :=
  followed_mapM persists_alike copied fun _ below node copy =>
    reads.value _ below constant node copy

/-- A node that stands for a type is read if there is one, or else some type without cells is taken.
-/
theorem ReadAlike.typeOrElse {type : TypeTerm}
    (otherwise : Alike edition.revision links type type) :
    ∀ {found answer : Option Node},
      Option.Rel (CopiedType edition.revision.anywhere) found answer →
      Followed edition links (Alike edition.revision)
        (match found with
          | some node => read .type node
          | none => return type)
        (match answer with
          | some copy => other .type copy
          | none => return type)
  | _, _, .none => followed_pure otherwise
  | _, _, .some written => reads.ofType written

theorem ReadAlike.valueOrElse {type : TypeTerm}
    (constant : Bool) (otherwise : Alike edition.revision links type type) :
    ∀ {found answer : Option Node},
      Option.Rel (CopiedValue edition.revision.anywhere) found answer →
      Followed edition links (Alike edition.revision)
        (match found with
          | some node => read (.value constant) node
          | none => return type)
        (match answer with
          | some copy => other (.value constant) copy
          | none => return type)
  | _, _, .none => followed_pure otherwise
  | _, _, .some copied => reads.ofValue constant copied

/-- A generic use has the same code, up to the spelling. -/
theorem followed_genericCode {arguments copies : List Node} {name otherName : String}
    (scopes : AlikeScope edition.revision links scope twin)
    (spelled : edition.revision.spelling.spelled name otherName)
    (written : Listwise (fun argument copy =>
      CopiedType edition.revision.anywhere argument copy ∧
        edition.revision.spelling.spelled argument.text copy.text) arguments copies) :
    Followed edition links (fun _ => edition.revision.spelling.spelled)
      (genericCode read scope name arguments) (genericCode other twin otherName copies) := by
  obtain ⟨parameters, _, _⟩ := scopes
  have shown : ∀ texts others : List String,
      Listwise edition.revision.spelling.spelled texts others →
      edition.revision.spelling.spelled (name ++ "<" ++ Text.join ", " texts ++ ">")
        (otherName ++ "<" ++ Text.join ", " others ++ ">") := fun texts others related =>
    edition.revision.spelling.append (parted spelled (join related (by decide)) (by decide))
      (edition.revision.spelling.own (by decide)) (.inr (by decide))
  have texts : Followed edition links (fun _ => Listwise edition.revision.spelling.spelled)
      (arguments.mapM fun argument => do return (← read .type argument).text)
      (copies.mapM fun argument => do return (← other .type argument).text) :=
    followed_mapM (persists_const _) written fun _ below argument copy ⟨copied, _⟩ =>
      (reads.type _ below argument copy copied).map fun _ _ _ _ => TypeTerm.text_spelled
  unfold genericCode
  dsimp only
  rw [parameters.isEmpty_eq]
  split
  · exact followed_pure (shown _ _ (written.map fun _ _ both => both.2))
  · exact texts.map fun _ _ _ _ => shown _ _

end

/-! ## Signatures -/

theorem followed_boundProperty (reads : ReadAlike edition links read other)
    (copied : Copied edition.revision.anywhere node copy) :
    Followed edition links (fun links => Option.Rel (AlikeProperty edition.revision links))
      (boundProperty read node) (boundProperty other copy) := by
  have unknown : Alike edition.revision links any any := alike_primitive (by decide)
  have key := copied.child?_name "key" (by decide) (by simp)
  unfold boundProperty
  dsimp only
  rw [copied.kind_eq, copied.textOf_eq "left" (by decide) (by simp),
    propertyName_eq_of_copied key]
  split
  · rename_i shorthand
    have name := copied.name (by
      rw [copied.kind_eq, shorthand]
      decide)
    rw [name.same]
    exact followed_pure (.some ⟨unknown, name.same ▸ name.fixed⟩)
  · have fixed := copied.fixed_textOf "left" (by decide) (by simp)
    rw [copied.textOf_eq "left" (by decide) (by simp)] at fixed
    rcases optionRel_cases (copied.child?_read "right" (by decide)) with
      ⟨none, noCopy⟩ | ⟨value, valueCopy, found, copyFound, valueCopied⟩
    · rw [none, noCopy]
      exact followed_pure (.some ⟨unknown, fixed⟩)
    · rw [found, copyFound]
      exact (reads.ofValue false valueCopied).map fun _ _ _ _ alike => .some ⟨alike, fixed⟩
  · have fixed := fixed_propertyName key
    rw [propertyName_eq_of_copied key] at fixed
    rcases optionRel_cases (copied.child? "value") with
      ⟨none, noCopy⟩ | ⟨value, valueCopy, found, copyFound, valueCopied⟩
    · rw [none, noCopy]
      exact followed_pure (.some ⟨unknown, fixed⟩)
    · rw [found, copyFound]
      dsimp only
      rw [valueCopied.kind_eq]
      split
      · rcases optionRel_cases (valueCopied.child?_read "right" (by decide)) with
          ⟨none, noCopy⟩ | ⟨right, rightCopy, found, copyFound, rightCopied⟩
        · rw [none, noCopy]
          exact followed_pure (.some ⟨unknown, fixed⟩)
        · rw [found, copyFound]
          exact (reads.ofValue false rightCopied).map fun _ _ _ _ alike => .some ⟨alike, fixed⟩
      · exact followed_pure (.some ⟨unknown, fixed⟩)
  · exact followed_pure .none

theorem boundProperty_comment (start line : Nat) (text : String) :
    boundProperty other (comment start line text) = pure none :=
  rfl

theorem followed_boundProperties (reads : ReadAlike edition links read other)
    (copied : Copied edition.revision.anywhere node copy) :
    Followed edition links (fun links => Listwise (AlikeProperty edition.revision links))
      (boundProperties read node) (boundProperties other copy) :=
  (followed_filterMapM persists_property copied.namedChildren
    (fun _ below _ _ part => followed_boundProperty (reads.mono below) part.copied)
    boundProperty_comment).map fun _ _ _ _ => id

theorem followed_parameterType (reads : ReadAlike edition links read other)
    (copied : Copied edition.revision.anywhere node copy) :
    Followed edition links (Alike edition.revision) (parameterType read node)
      (parameterType other copy) := by
  unfold parameterType
  rcases optionRel_cases (copied.child?_type "type" (.inl rfl)) with
    ⟨none, noCopy⟩ | ⟨type, typeCopy, found, copyFound, written⟩
  · rw [none, noCopy]
    rcases optionRel_cases (copied.child?_read "value" (by decide)) with
      ⟨none, noCopy⟩ | ⟨value, valueCopy, found, copyFound, valueCopied⟩
    · rw [none, noCopy]
      exact followed_primitive (by decide)
    · rw [found, copyFound]
      exact reads.ofValue false valueCopied
  · rw [found, copyFound]
    exact reads.ofType written

theorem lastName_of_rest (copied : Copied change node copy)
    (isRest : copy.kind = "rest_pattern") :
    Option.Rel (NameText change.spelling) node.lastNamed? copy.lastNamed? := by
  have ofKind := copied.kind_eq.trans isRest
  refine optionRel_mono (copied.last? (by
    rw [ofKind]
    decide)) fun _ _ part => copied.name_of_part (by
      rw [ofKind]
      decide) part

/-- Related parameters are read from related nodes. -/
theorem followed_parameterOf (reads : ReadAlike edition links read other)
    (copied : Copied edition.revision.anywhere node copy) :
    Followed edition links (fun links => Option.Rel (AlikeParameter edition.revision links))
      (parameterOf read node) (parameterOf other copy) := by
  unfold parameterOf
  dsimp only
  rw [copied.kind_eq]
  split
  · exact followed_pure .none
  rcases optionRel_cases (copied.child?_name "pattern" (by decide) (by simp)) with
    ⟨none, noCopy⟩ | ⟨pattern, patternCopy, found, copyFound, patternCopied, name⟩
  · rw [none, noCopy]
    exact followed_pure .none
  rw [found, copyFound]
  dsimp only
  have fixed := name.fixed
  rw [name.same] at fixed
  rw [patternCopied.kind_eq, name.same, optionIsSome_eq (copied.child? "value"),
    optionIsNone_eq (copied.child? "type")]
  split
  · exact followed_pure .none
  refine (followed_parameterType reads copied).bind fun more below type twin alike => ?_
  have collapsed := edition.revision.spelling.collapse fixed
  split
  · rename_i isRest
    rcases optionRel_cases (lastName_of_rest patternCopied isRest) with
      ⟨none, noCopy⟩ | ⟨last, lastCopy, found, copyFound, lastName⟩
    · rw [none, noCopy]
      exact followed_pure (.some ⟨alike, .nil, edition.revision.spelling.own (by decide)⟩)
    · have lastFixed := lastName.fixed
      rw [lastName.same] at lastFixed
      rw [found, copyFound, Option.map_some, Option.map_some, lastName.same]
      exact followed_pure (.some ⟨alike, .nil, lastFixed⟩)
  · split
    · exact (followed_boundProperties (reads.mono below) patternCopied).map
        fun _ further _ _ properties => .some ⟨alike.mono further, properties, collapsed⟩
    · exact followed_pure (.some ⟨alike, .nil, collapsed⟩)
  · exact followed_pure (.some ⟨alike, .nil, collapsed⟩)
  · exact followed_pure (.some ⟨alike, .nil, fixed⟩)

theorem parameterOf_comment (start line : Nat) (text : String) :
    parameterOf other (comment start line text) = pure none :=
  rfl

/-- The values that a function returns have related types. -/
theorem followed_inferredReturn (reads : ReadAlike edition links read other)
    (copied : Copied edition.revision.anywhere node copy) :
    Followed edition links (Alike edition.revision) (inferredReturn read node)
      (inferredReturn other copy) := by
  unfold inferredReturn
  rw [copied.kind_eq]
  rcases optionRel_cases (copied.child?_read "body" (by decide)) with
    ⟨none, noCopy⟩ | ⟨body, bodyCopy, found, copyFound, bodyCopied⟩
  · rw [none, noCopy]
    dsimp only
    split
    · exact followed_primitive (by decide)
    · exact followed_primitive (by decide)
  · rw [found, copyFound]
    dsimp only
    rw [bodyCopied.1.kind_eq]
    split
    · exact reads.ofValue false bodyCopied
    · refine (reads.eachValue false bodyCopied.1.returns).bind fun _ _ types twins related => ?_
      cases related with
      | nil => exact followed_primitive (by decide)
      | cons head tail => exact followed_pure (alike_unionOf (.cons head tail))

theorem followed_returnType (reads : ReadAlike edition links read other)
    (copied : Copied edition.revision.anywhere node copy) :
    Followed edition links (Alike edition.revision) (returnType read node)
      (returnType other copy) := by
  unfold returnType
  rw [copied.kind_eq, copied.hasChild_eq (by decide), copied.hasChild_eq (by decide)]
  rcases optionRel_cases (copied.child?_type "return_type" (.inr rfl)) with
    ⟨none, noCopy⟩ | ⟨type, typeCopy, found, copyFound, written⟩
  · rw [none, noCopy]
    refine (followed_inferredReturn reads copied).bind fun _ _ type twin alike => ?_
    have spelled := TypeTerm.text_spelled alike
    split
    · exact followed_pure (.verbatim (enclosed spelled (by decide) (by decide)))
    · split
      · exact followed_pure (.verbatim (enclosed spelled (by decide) (by decide)))
      · exact followed_pure alike
  · rw [found, copyFound]
    exact reads.ofType written

/-- The parameter of a function that is written without parentheses. -/
theorem single_related (copied : Copied edition.revision.anywhere node copy) :
    Listwise (AlikeParameter edition.revision links)
      ((node.child? "parameter").map fun parameter =>
        plainParameter parameter.text any false).toList
      ((copy.child? "parameter").map fun parameter =>
        plainParameter parameter.text any false).toList := by
  rcases optionRel_cases (copied.child?_name "parameter" (by decide) (by simp)) with
    ⟨none, noCopy⟩ | ⟨parameter, parameterCopy, found, copyFound, _, name⟩
  · rw [none, noCopy]
    exact .nil
  · have fixed := name.fixed
    rw [name.same] at fixed
    rw [found, copyFound, Option.map_some, Option.map_some, name.same]
    exact .cons ⟨alike_primitive (by decide), .nil, fixed⟩ .nil

/-- Related signatures are read from related nodes. -/
theorem followed_signatureOf (reads : ReadAlike edition links read other)
    (copied : Copied edition.revision.anywhere node copy) :
    Followed edition links (AlikeSignature edition.revision) (signatureOf read node)
      (signatureOf other copy) := by
  have finish : ∀ more, links.Below more → ∀ listed twins : List (Option (Parameter TypeTerm)),
      Listwise (AlikeParameter edition.revision more) (listed.filterMap id)
        (twins.filterMap id) →
      Followed edition more (AlikeSignature edition.revision)
        (do return ⟨((node.child? "parameter").map fun parameter =>
          plainParameter parameter.text any false).toList ++ listed.filterMap id,
          ← returnType read node⟩)
        (do return ⟨((copy.child? "parameter").map fun parameter =>
          plainParameter parameter.text any false).toList ++ twins.filterMap id,
          ← returnType other copy⟩) := by
    intro more below listed twins related
    refine (followed_returnType (reads.mono below) copied).map fun most further _ _ returns => ?_
    exact ⟨(single_related copied).append (parameters_mono further related), returns⟩
  unfold signatureOf
  dsimp only
  rcases optionRel_cases (copied.child? "parameters") with
    ⟨none, noCopy⟩ | ⟨list, listCopy, found, copyFound, listCopied⟩
  · rw [none, noCopy]
    exact finish links (.refl links) [] [] .nil
  · rw [found, copyFound]
    exact (followed_filterMapM persists_parameter listCopied.namedChildren
      (fun _ below _ _ part => followed_parameterOf (reads.mono below) part.copied)
      parameterOf_comment).bind finish

theorem followed_functionOf (reads : ReadAlike edition links read other)
    (copied : Copied edition.revision.anywhere node copy) :
    Followed edition links (Alike edition.revision) (functionOf read node)
      (functionOf other copy) :=
  (followed_signatureOf reads copied).map fun _ _ _ _ related =>
    .function (.cons related .nil) (edition.revision.spelling.own (by decide))

/-! ## Type syntax -/

theorem followed_tupleMember (reads : ReadAlike edition links read other)
    (written : CopiedType edition.revision.anywhere node copy) :
    Followed edition links (Alike edition.revision) (tupleMember read node)
      (tupleMember other copy) := by
  obtain ⟨copied, _⟩ := id written
  have sameKind := copied.kind_eq
  have inner : Option.Rel (CopiedType edition.revision.anywhere)
      (if node.kind == "tuple_parameter" || node.kind == "optional_tuple_parameter" then
        node.child? "type"
      else if node.kind == "optional_type" || node.kind == "rest_type" then node.lastNamed?
      else none)
      (if copy.kind == "tuple_parameter" || copy.kind == "optional_tuple_parameter" then
        copy.child? "type"
      else if copy.kind == "optional_type" || copy.kind == "rest_type" then copy.lastNamed?
      else none) := by
    rw [sameKind]
    split
    · exact copied.child?_type "type" (.inl rfl)
    · split
      · rename_i isLast
        have known : copy.kind = "optional_type" ∨ copy.kind = "rest_type" := by simpa using isLast
        refine copied.last?_type ?_ ?_ <;> rw [sameKind] <;>
          rcases known with kind | kind <;> rw [kind] <;> decide
      · exact .none
  exact reads.ofType (optionGetD_related inner written)

theorem followed_parameterValue {name otherName : String}
    (scopes : AlikeScope edition.revision links scope twin)
    (names : edition.revision.spelling.Names name otherName) :
    Followed edition links (Alike edition.revision)
      (match Keyed.find? name scope.parameters with
        | some value => return value
        | none => newReference scope name name [])
      (match Keyed.find? otherName twin.parameters with
        | some value => return value
        | none => newReference twin otherName otherName []) := by
  have found : Option.Rel (Alike edition.revision links) (Keyed.find? name scope.parameters)
      (Keyed.find? otherName twin.parameters) := by
    obtain ⟨parameters, _, _⟩ := scopes
    exact parameters.find?_assigned names.unique
  revert found
  generalize Keyed.find? name scope.parameters = value
  generalize Keyed.find? otherName twin.parameters = answer
  intro found
  cases found with
  | none => exact followed_newReference scopes names names.spelled .nil
  | some alike => exact followed_pure alike

theorem followed_writtenObject
    (scopes : AlikeScope edition.revision links scope twin)
    (copied : Copied edition.revision.anywhere node copy)
    (spelled : edition.revision.spelling.spelled node.text copy.text) :
    Followed edition links (Alike edition.revision)
      (do newObject (← codeOf scope node) none (.body node scope))
      (do newObject (← codeOf twin copy) none (.body copy twin)) :=
  (followed_codeOf scopes spelled).bind fun _ below _ _ shown =>
    followed_newObject (.body copied (scope_mono below scopes)) shown
      fun _ impossible => by cases impossible

/-- Type arguments are read where they stand and looked at again later. -/
theorem written_typeArguments (copied : Copied change node copy) :
    Listwise (CopiedType change) (typeArguments node) (typeArguments copy) :=
  copied.typeArguments.mono fun _ _ both => both.1

/-- Related annotations are read as related types. -/
theorem followed_ofAnnotated
    (reads : ReadAlike edition links read other)
    (scopes : AlikeScope edition.revision links scope twin)
    (written : CopiedType edition.revision.anywhere node copy) :
    Followed edition links (Alike edition.revision) (ofAnnotated read scope node)
      (ofAnnotated other twin copy) := by
  obtain ⟨copied, _⟩ := id written
  have sameKind := copied.kind_eq
  have label : edition.revision.spelling.Fixed "" := edition.revision.spelling.own (by decide)
  unfold ofAnnotated
  rw [sameKind]
  split
  case h_1 kind | h_2 kind | h_3 kind | h_4 kind | h_5 kind | h_6 kind | h_7 kind | h_8 kind =>
    refine reads.typeOrElse (alike_primitive (by decide)) (copied.last?_type ?_ ?_) <;>
      rw [sameKind, kind] <;> decide
  case h_20 kind =>
    have notParameter : "name" = "name" → node.kind ≠ "type_parameter" := by
      rw [sameKind, kind]
      decide
    have fixed := copied.fixed_textOf "name" (by decide) notParameter
    have arguments := copied.typeArguments
    rw [copied.textOf_eq "name" (by decide) notParameter] at fixed ⊢
    refine (followed_genericCode reads scopes fixed arguments).bind fun _ below _ _ shown => ?_
    exact followed_newReference (scope_mono below scopes) fixed.names shown
      (written_typeArguments copied)
  case h_21 isArray =>
    have spelled := (written.text (by rw [isArray]; decide)).spelled
    rcases optionRel_cases (copied.first?_type (by rw [sameKind, isArray]; decide)
        (by rw [sameKind, isArray]; decide)) with
      ⟨none, noCopy⟩ | ⟨element, elementCopy, found, copyFound, elementWritten⟩
    · rw [none, noCopy]
      exact followed_pure (.verbatim spelled)
    · rw [found, copyFound]
      exact (reads.ofType elementWritten).map fun _ _ _ _ => .array
  case h_22 isTuple =>
    have members := copied.every_type (by rw [sameKind, isTuple]; decide)
      (by rw [sameKind, isTuple]; decide)
    exact (followed_mapM persists_alike members fun _ below _ _ =>
      followed_tupleMember (reads.mono below)).map fun _ _ _ _ => .tuple
  case h_23 isUnion =>
    have members := copied.members (by rw [sameKind, isUnion]; decide)
      (by rw [sameKind, isUnion]; decide)
    rw [sameKind, isUnion] at members
    exact (reads.eachType members).map fun _ _ _ _ related => .union related label
  case h_24 isIntersection =>
    have members := copied.members (by rw [sameKind, isIntersection]; decide)
      (by rw [sameKind, isIntersection]; decide)
    rw [sameKind, isIntersection] at members
    exact (reads.eachType members).map fun _ _ _ _ related => .intersection related label
  case h_25 => exact followed_functionOf reads copied
  case h_26 kind | h_27 kind =>
    exact followed_writtenObject scopes copied (written.text (by rw [kind]; decide)).spelled
  case h_28 | h_29 | h_30 | h_31 => exact followed_primitive (by decide)
  case h_9 kind | h_10 kind | h_11 kind =>
    exact followed_pure (.primitive (written.text (by rw [kind]; decide)).spelled)
  case h_12 kind =>
    have spelled := (written.text (by rw [kind]; decide)).spelled
    have isNothing : (node.text == "null" || node.text == "undefined") =
        (copy.text == "null" || copy.text == "undefined") := by
      rw [Bool.eq_iff_iff]
      simp only [Bool.or_eq_true, beq_iff_eq]
      rw [own_iff spelled (by decide), own_iff spelled (by decide)]
    rw [isNothing]
    split
    · exact followed_pure (.primitive spelled)
    · exact followed_pure (.literal spelled)
  case h_13 kind | h_14 kind | h_15 kind | h_16 kind =>
    exact followed_pure (.literal (written.text (by rw [kind]; decide)).spelled)
  case h_17 kind | h_18 kind =>
    exact followed_parameterValue scopes ((written.text (by rw [kind]; decide)).names (by
      rw [sameKind, kind]
      decide))
  case h_19 kind =>
    have names := (written.text (by rw [kind]; decide)).names (by
      rw [sameKind, kind]
      decide)
    exact followed_newReference scopes names names.spelled .nil
  case h_32 =>
    have isRead : composedKinds.contains copy.kind = false := by
      simp only [composedKinds, wrapperKinds, List.cons_append, List.nil_append,
        List.contains_cons, List.contains_nil, Bool.or_eq_false_iff, beq_eq_false_iff_ne]
      and_intros <;> first | assumption | trivial
    exact (followed_codeOf scopes (written.text isRead).spelled).map fun _ _ _ _ => .verbatim

/-! ## Values -/

/-- An entry of an object is read as related properties. -/
theorem followed_objectProperty (reads : ReadAlike edition links read other)
    (copied : Copied edition.revision.anywhere node copy) :
    Followed edition links (fun links => Option.Rel (AlikeProperty edition.revision links))
      (objectProperty read node) (objectProperty other copy) := by
  unfold objectProperty
  rw [copied.kind_eq]
  split
  · rcases optionRel_cases (copied.child?_name "key" (by decide) (by simp)) with
      ⟨none, noCopy⟩ | ⟨key, keyCopy, found, copyFound, keyNamed⟩
    · rw [none, noCopy]
      exact followed_pure .none
    · rw [found, copyFound]
      rcases optionRel_cases (copied.child?_read "value" (by decide)) with
        ⟨none, noCopy⟩ | ⟨value, valueCopy, found, copyFound, valueCopied⟩
      · rw [none, noCopy]
        exact followed_pure .none
      · rw [found, copyFound]
        dsimp only
        have fixed := fixed_propertyName (.some keyNamed)
        rw [propertyName_eq_of_copied (.some keyNamed)] at fixed ⊢
        exact (reads.ofValue false valueCopied).map fun _ _ _ _ alike => .some ⟨alike, fixed⟩
  · rename_i shorthand
    have name := copied.name (by
      rw [copied.kind_eq, shorthand]
      decide)
    rw [name.same]
    exact followed_pure (.some ⟨alike_primitive (by decide), name.same ▸ name.fixed⟩)
  · rename_i isMethod
    have named := copied.child?_name "name" (by decide) (by
      rw [copied.kind_eq, isMethod]
      decide)
    have fixed := fixed_propertyName named
    rw [propertyName_eq_of_copied named] at fixed ⊢
    exact (followed_functionOf reads copied).map fun _ _ _ _ alike => .some ⟨alike, fixed⟩
  · exact followed_pure .none

theorem objectProperty_comment (start line : Nat) (text : String) :
    objectProperty other (comment start line text) = pure none :=
  rfl

theorem objectCode_spelled {properties others : List (Property TypeTerm)}
    (related : Listwise (AlikeProperty edition.revision links) properties others) :
    edition.revision.spelling.spelled (objectCode properties) (objectCode others) := by
  have entries : Listwise edition.revision.spelling.spelled
      (properties.map fun property => property.name ++ ": " ++ property.type.text ++ ";")
      (others.map fun property => property.name ++ ": " ++ property.type.text ++ ";") := by
    refine related.map ?_
    rintro _ _ ⟨alike, fixed⟩
    exact edition.revision.spelling.append
      (parted fixed (TypeTerm.text_spelled alike) (by decide))
      (edition.revision.spelling.own (by decide)) (.inr (by decide))
  unfold objectCode
  rw [related.isEmpty_eq]
  split
  · exact edition.revision.spelling.own (by decide)
  · exact enclosed (join entries (by decide)) (by decide) (by decide)

section

variable (reads : ReadAlike edition links read other)
  (copied : Copied edition.revision.anywhere node copy)

include reads copied

theorem followed_ofObject :
    Followed edition links (Alike edition.revision) (ofObject read node) (ofObject other copy) :=
  (followed_filterMapM persists_property copied.namedChildren
    (fun _ below _ _ part => followed_objectProperty (reads.mono below) part.copied)
    objectProperty_comment).bind fun _ _ _ _ properties =>
      followed_newObject (.known ⟨properties, .nil⟩) (objectCode_spelled properties)
        fun _ impossible => by cases impossible

theorem followed_ofArray (isArray : copy.kind = "array") :
    Followed edition links (Alike edition.revision) (ofArray read node) (ofArray other copy) := by
  have children := copied.every (by
    rw [copied.kind_eq, isArray]
    decide)
  have ofContext : valueContexts.contains node.kind = true := by
    rw [copied.kind_eq, isArray]
    decide
  have elements : Listwise (CopiedValue edition.revision.anywhere)
      (node.namedChildren.filter fun child => child.kind != "spread_element")
      (copy.namedChildren.filter fun child => child.kind != "spread_element") :=
    (children.filter fun _ _ part => by rw [part.kind_eq]).mono fun _ _ part =>
      part.value (isValuePlace_of_context ofContext _ _)
  refine (reads.eachValue false elements).bind fun _ _ types twins related => ?_
  cases related with
  | nil => exact followed_pure (.array (alike_primitive (by decide)))
  | cons head tail => exact followed_pure (.array (alike_unionOf (.cons head tail)))

theorem followed_ofAssertion (isAssertion : copy.kind = "as_expression") :
    Followed edition links (Alike edition.revision) (ofAssertion read node)
      (ofAssertion other copy) := by
  have ofKind := copied.kind_eq.trans isAssertion
  unfold ofAssertion
  rw [copied.hasChild_eq (by decide)]
  rcases copied.first_and_last (by
    rw [ofKind]
    decide) with
    ⟨none, noCopy⟩ | ⟨first, rest, firstCopy, restCopies, found, copyFound, head, last⟩
  · rw [none, noCopy]
    exact followed_primitive (by decide)
  · rw [found, copyFound]
    dsimp only
    split
    · refine reads.ofValue true (head.value (isValuePlace_of_context ?_ _ _))
      rw [ofKind]
      decide
    · refine reads.typeOrElse (alike_primitive (by decide)) (optionRel_mono last fun _ _ part => ?_)
      refine part.type (isTypePlace_of_context (typeContexts_context ?_ _) _)
      rw [ofKind]
      decide

end

/-- The kinds of what may be created or extended by a plain name. -/
theorem name_of_callee (copied : CopiedValue change node copy)
    (isName : (copy.kind == "identifier" || copy.kind == "member_expression") = true) :
    NameText change.spelling node copy := by
  refine copied.2 ?_
  rw [Bool.or_eq_true, beq_iff_eq, beq_iff_eq] at isName
  rcases isName with kind | kind <;> rw [copied.1.kind_eq, kind] <;> decide

/-- What a constructor makes has related types. -/
theorem followed_ofNew
    (reads : ReadAlike edition links read other)
    (scopes : AlikeScope edition.revision links scope twin)
    (copied : Copied edition.revision.anywhere node copy) :
    Followed edition links (Alike edition.revision) (ofNew read scope node)
      (ofNew other twin copy) := by
  have arguments := copied.typeArguments
  have written := written_typeArguments copied
  unfold ofNew
  rcases optionRel_cases (copied.child?_read "constructor" (by decide)) with
    ⟨none, noCopy⟩ | ⟨callee, calleeCopy, found, copyFound, calleeCopied⟩
  · rw [none, noCopy]
    exact followed_primitive (by decide)
  · rw [found, copyFound]
    dsimp only
    rw [calleeCopied.1.kind_eq, arguments.isEmpty_eq]
    split
    · rename_i isName
      have name := name_of_callee calleeCopied isName
      have fixed := name.fixed
      rw [name.same] at fixed ⊢
      split
      · exact followed_newReference scopes fixed.names fixed written
      · exact (followed_genericCode reads scopes fixed arguments).bind fun _ below _ _ shown =>
          followed_newReference (scope_mono below scopes) fixed.names shown written
    · exact followed_primitive (by decide)

/-- The type of the result of an operator has no cells. -/
theorem alike_ofUnary (value : CopiedValue edition.revision.anywhere node copy)
    (isUnary : copy.kind = "unary_expression") (constant : Bool) :
    Alike edition.revision links (ofUnary constant node) (ofUnary constant copy) := by
  obtain ⟨copied, read⟩ := value
  have argument : (node.child? "argument").map (fun argument => argument.kind == "number") =
      (copy.child? "argument").map fun argument => argument.kind == "number" :=
    optionMap_eq (copied.child? "argument") fun _ _ argumentCopied => by
      rw [argumentCopied.kind_eq]
  have name := read (by
    rw [copied.kind_eq, isUnary]
    decide)
  have fixed := name.fixed
  unfold ofUnary
  dsimp only
  rw [name.same] at fixed ⊢
  rw [copied.textOf_eq "operator" (by decide) (by simp), argument]
  repeat' split
  all_goals first
    | exact alike_primitive (by decide)
    | exact .literal fixed

/-- Related values are read as related types. -/
theorem followed_ofValue
    (reads : ReadAlike edition links read other)
    (scopes : AlikeScope edition.revision links scope twin) (constant : Bool)
    (value : CopiedValue edition.revision.anywhere node copy) :
    Followed edition links (Alike edition.revision) (ofValue read scope constant node)
      (ofValue other twin constant copy) := by
  obtain ⟨copied, isRead⟩ := id value
  have sameKind := copied.kind_eq
  unfold ofValue
  rw [sameKind, copied.textOf_eq "operator" (by decide) (by simp)]
  split
  case h_1 kind =>
    have name := isRead (by rw [sameKind, kind]; decide)
    have inner := name.inner (sameKind.trans kind)
    rw [name.same] at inner ⊢
    split
    · exact followed_pure (.literal (enclosed inner (by decide) (by decide)))
    · exact followed_primitive (by decide)
  case h_3 kind =>
    have name := isRead (by rw [sameKind, kind]; decide)
    have fixed := name.fixed
    rw [name.same] at fixed ⊢
    split
    · exact followed_pure (.literal fixed)
    · exact followed_primitive (by decide)
  case h_4 kind | h_5 kind =>
    rw [kind]
    split
    · exact followed_pure (.literal (edition.revision.spelling.own (by decide)))
    · exact followed_primitive (by decide)
  case h_8 kind =>
    rw [(isRead (by rw [sameKind, kind]; decide)).same]
    split
    · exact followed_primitive (by decide)
    · exact followed_primitive (by decide)
  case h_10 | h_11 | h_12 | h_13 => exact followed_functionOf reads copied
  case h_14 => exact followed_ofObject reads copied
  case h_15 kind => exact followed_ofArray reads copied kind
  case h_16 => exact followed_ofNew reads scopes copied
  case h_17 kind => exact followed_ofAssertion reads copied kind
  case h_18 kind | h_19 kind | h_20 kind =>
    refine reads.valueOrElse constant (alike_primitive (by decide))
      (optionRel_mono (copied.first? ?_) fun _ _ part =>
        part.value (isValuePlace_of_context ?_ _ _)) <;>
      rw [sameKind, kind] <;> decide
  case h_21 kind => exact followed_pure (alike_ofUnary value kind constant)
  case h_22 =>
    dsimp only
    split
    · exact followed_primitive (by decide)
    · exact followed_primitive (by decide)
  all_goals exact followed_primitive (by decide)

end Readers

/-! ## Whole trees -/

section Scopes

variable {scope twin : Scope TypeTerm} {node copy : Node}

variable (scopes : AlikeScope edition.revision links scope twin)

include scopes

theorem readAlike_readWith (fuel : Nat) :
    ReadAlike edition links (readWith scope fuel) (readWith twin fuel) := by
  induction fuel generalizing links with
  | zero =>
    exact ⟨fun _ _ _ _ _ => followed_primitive (by decide),
      fun _ _ _ _ _ _ => followed_primitive (by decide)⟩
  | succ fuel ih =>
    exact ⟨fun _ below _ _ =>
        followed_ofAnnotated (ih (scope_mono below scopes)) (scope_mono below scopes),
      fun _ below constant _ _ =>
        followed_ofValue (ih (scope_mono below scopes)) (scope_mono below scopes) constant⟩

theorem readAlike_readerFor (copied : Copied edition.revision.anywhere node copy) :
    ReadAlike edition links (readerFor scope node) (readerFor twin copy) := by
  unfold readerFor
  rw [← copied.height_eq]
  exact readAlike_readWith scopes _

/-- A piece of type syntax and its copy write types that are alike, whatever the values of the
parameters are made of. -/
theorem followed_typeOf (written : CopiedType edition.revision.anywhere node copy) :
    Followed edition links (Alike edition.revision) (typeOf scope node) (typeOf twin copy) :=
  (readAlike_readerFor scopes written.1).ofType written

theorem followed_valueType (constant : Bool)
    (value : CopiedValue edition.revision.anywhere node copy) :
    Followed edition links (Alike edition.revision) (valueType scope constant node)
      (valueType twin constant copy) :=
  (readAlike_readerFor scopes value.1).ofValue constant value

theorem followed_signature (copied : Copied edition.revision.anywhere node copy) :
    Followed edition links (AlikeSignature edition.revision) (signature scope node)
      (signature twin copy) :=
  followed_signatureOf (readAlike_readerFor scopes copied) copied

end Scopes
end Types
end ModuleAtlas
