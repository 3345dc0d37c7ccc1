import ModuleAtlas.Proofs.Catalogue.Entries
import ModuleAtlas.Proofs.FileTree.Noted

/-!
# The catalogue in both editions

The exports of a file are the same in both editions: the same names in the same order, and for each
the same shape but for the spelling of types, or the same reason why there is none.  The texts of
the declarations are left aside, as they are copied from the file with all comments.
-/

namespace ModuleAtlas

/-! ## Reports in two spellings -/

/-- The same description but for the spelling of types, the text of the declaration left aside. -/
def Description.Spelled (spelling : Spelling) (description other : Description) : Prop :=
  Shape.Spelled spelling description.shape other.shape

/-- An export under the same name, with the same shape but for the spelling of types, or with the
same reason why there is none. -/
structure ExportEntry.Spelled (spelling : Spelling) (entry other : ExportEntry) : Prop where
  name : entry.name = other.name
  kind : entry.kind = other.kind
  described : Outcomes (Description.Spelled spelling) entry.description other.description

/-- A file with the same exports but for the spelling of types, or with the same reason why it
cannot be read.  Modules as a whole are handed on under names that both editions spell in one way.
-/
inductive FileExports.Spelled (spelling : Spelling) : FileExports → FileExports → Prop where
  | error (file reason : String) : Spelled spelling ⟨file, .error reason⟩ ⟨file, .error reason⟩
  | ok (file : String) {entries others : List ExportEntry} (nameSpaces : List ReExport)
      (related : Listwise (ExportEntry.Spelled spelling) entries others) :
      Spelled spelling ⟨file, .ok (entries ++ nameSpaces.filterMap Catalogue.nameSpaceEntry?)⟩
        ⟨file, .ok (others ++ nameSpaces.filterMap Catalogue.nameSpaceEntry?)⟩

theorem FileExports.Spelled.isEmpty_eq {spelling : Spelling} {found other : FileExports}
    (spelled : FileExports.Spelled spelling found other) :
    found.isEmpty = other.isEmpty := by
  cases spelled with
  | error => rfl
  | @ok file entries others nameSpaces related =>
    have same : entries = [] ↔ others = [] := by
      rw [← List.isEmpty_iff, ← List.isEmpty_iff, related.isEmpty_eq]
    unfold FileExports.isEmpty
    dsimp only
    rw [Bool.eq_iff_iff, List.isEmpty_iff, List.isEmpty_iff, List.append_eq_nil_iff,
      List.append_eq_nil_iff, same]

/-- What is shown of an export besides the text of its declaration: its name, its kind, and its
simplified type or the reason why there is none. -/
def ExportEntry.simplified (entry : ExportEntry) : String × String × Except String Shape :=
  (entry.name, entry.kind, entry.description.map Description.shape)

/-- What is shown of a file besides the texts of declarations. -/
def FileExports.simplified (found : FileExports) :
    String × Except String (List (String × String × Except String Shape)) :=
  (found.file, found.exports.map (List.map ExportEntry.simplified))

/-- Where all texts are spelled in one way, the same is shown. -/
theorem ExportEntry.simplified_eq {entry other : ExportEntry}
    (spelled : ExportEntry.Spelled .same entry other) :
    entry.simplified = other.simplified := by
  have shapes : entry.description.map Description.shape =
      other.description.map Description.shape := by
    have described := spelled.described
    generalize entry.description = description at described ⊢
    generalize other.description = otherDescription at described ⊢
    cases described with
    | error reason => rfl
    | ok related => exact congrArg Except.ok (Shape.Spelled.eq related)
  unfold ExportEntry.simplified
  rw [spelled.name, spelled.kind, shapes]

theorem FileExports.simplified_eq {found other : FileExports}
    (spelled : FileExports.Spelled .same found other) :
    found.simplified = other.simplified := by
  cases spelled with
  | error => rfl
  | ok file nameSpaces related =>
    have same := related.map_eq fun _ _ => ExportEntry.simplified_eq
    unfold FileExports.simplified
    simp only [Except.map, List.map_append, same]

namespace Catalogue

open Node Session Simplifier ModuleAtlas.Types

variable {edition : Edition} {links : Links} {simplifier : Simplifier}

/-! ## Descriptions -/

section Descriptions

variable (presents : simplifier.Presents edition) {source copy : SourceModule}
  {declaration other : Declaration}

include presents

/-- A declaration has the same shape in both editions, or none for the same reason. -/
theorem followed_describe (sources : Sources edition source copy)
    (revised : Declaration.Revised (edition.revision.inFile source.path) declaration other) :
    Followed edition links
      (fun _ => Outcomes (Description.Spelled edition.revision.spelling))
      (describe simplifier declaration source) (describe simplifier other copy) := by
  have told : Followed edition links (fun _ => Description.Spelled edition.revision.spelling)
      (tell simplifier declaration source) (tell simplifier other copy) :=
    (followed_declarationText presents sources revised).bind fun _ _ _ _ _ =>
      (followed_declarationShape presents sources revised).map fun _ _ _ _ spelled => spelled
  unfold describe describeOn
  rw [bounded_ample_telling, bounded_ample_telling]
  refine told.attempt.bind fun more _ outcome twin outcomes => ?_
  cases outcomes with
  | ok spelled => exact followed_pure (.ok spelled)
  | error failure =>
    dsimp only
    split
    · exact followed_pure (.error _)
    · exact followed_fail _

theorem followed_entryOf {found twin : Export}
    (related : ExportAlike (Sources edition)
      (fun path => Declaration.Revised (edition.revision.inFile path)) found twin) :
    Followed edition links (fun _ => ExportEntry.Spelled edition.revision.spelling)
      (entryOf simplifier found) (entryOf simplifier twin) :=
  (followed_describe presents related.sources related.declaration).map fun _ _ _ _ described =>
    ⟨related.name, related.declaration.kind, described⟩

end Descriptions

/-! ## Files -/

/-- What is noted besides is left aside. -/
theorem followed_note (notice : Notice) :
    Followed edition links (fun _ => Eq) (Task.note notice) (Task.note notice) := by
  intro journal twin outcome after holds ran
  cases ran
  exact ⟨links, _, _, rfl, .refl _ _, holds, .ok rfl⟩

/-- The way to a file from a root is the same in both editions, and so is its canonical path. -/
theorem followed_fileAt (faithful : edition.Faithful) (root path : Path) :
    Followed edition links (fun _ => Eq) (Session.fileAt root path) (Session.fileAt root path) :=
  (followed_resolvePath faithful path).map fun _ _ _ _ => congrArg (File.seenFrom root)

/-- The entries of modules that are handed on as a whole, as far as they are wanted. -/
theorem filter_nameSpaceEntry? (wanted : Option (List String)) (entries : List ReExport) :
    ((entries.filterMap nameSpaceEntry?).filter fun entry => isWanted wanted entry.name) =
      (entries.filter fun entry => entry.nameSpace.any (isWanted wanted)).filterMap
        nameSpaceEntry? := by
  induction entries with
  | nil => rfl
  | cons entry rest ih =>
    obtain ⟨specifier, names, nameSpace⟩ := entry
    cases nameSpace with
    | none => exact ih
    | some name =>
      have given : nameSpaceEntry? ⟨specifier, names, some name⟩ = some _ := rfl
      rw [List.filterMap_cons_some given, List.filter_cons, List.filter_cons]
      dsimp only [Option.any_some]
      split
      · rw [List.filterMap_cons_some given, ih]
      · exact ih

/-- The exports of a file are the same in both editions but for the spelling of types and the texts
of their declarations. -/
theorem followed_ofFile (presents : simplifier.Presents edition) (root path : Path)
    (wanted : Option (List String)) :
    Followed edition links (fun _ => FileExports.Spelled edition.revision.spelling)
      (ofFile simplifier root wanted path) (ofFile simplifier root wanted path) := by
  have paired := paired_sources presents.faithful
  refine (followed_fileAt presents.faithful root path).bind ?_
  rintro more _ file _ rfl
  refine (followed_parse paired _).bind fun most _ parsed twin outcomes => ?_
  cases outcomes with
  | error fault => exact (followed_note _).bind fun _ _ _ _ _ => followed_pure (.error _ _)
  | ok sources =>
    dsimp only
    rw [bounded_ample_listing, bounded_ample_listing]
    refine (followed_moduleExports paired sources).bind fun last _ exports others related => ?_
    have shown := related.filter fun found other both =>
      show isWanted wanted found.name = isWanted wanted other.name by rw [both.name]
    refine (followed_mapM (persists_const _) shown fun _ _ _ _ both =>
      followed_entryOf presents both).map fun _ _ entries twins spelled => ?_
    rw [← sources.reExports, filter_nameSpaceEntry?]
    exact .ok _ _ spelled

/-! ## Inputs -/

section

variable (faithful : edition.Faithful)

include faithful

/-- What leads to a file is resolved to its canonical path. -/
theorem followed_resolveSome (path : Path) :
    Followed edition links (fun _ => Eq) (do return some (← Task.resolvePath path))
      (do return some (← Task.resolvePath path)) :=
  (followed_resolvePath faithful path).map fun _ _ _ _ => congrArg some

theorem followed_resolveFound (found : Option Path) :
    Followed edition links (fun _ => Eq)
      (do
        match found with
        | some found => return some (← Task.resolvePath found)
        | none => return none)
      (do
        match found with
        | some found => return some (← Task.resolvePath found)
        | none => return none) := by
  cases found with
  | none => exact followed_pure rfl
  | some path => exact followed_resolveSome faithful path

theorem followed_isFile (path : Path) :
    Followed edition links (fun _ => Eq) (Task.isFile path) (Task.isFile path) :=
  followed_of_steady (fun _ => Task.agreeing_isFile path) (.refl _) faithful.agrees

theorem followed_directoryEntry (directory : Path) :
    Followed edition links (fun _ => Eq) (directoryEntry directory) (directoryEntry directory) := by
  refine (followed_isFile faithful _).bind ?_
  rintro more _ isFile _ rfl
  split
  · refine (followed_resolving faithful.agrees (Resolver.steady_readManifestQuietly _)).bind ?_
    rintro most _ manifest _ rfl
    split
    · refine (followed_isFile faithful _).bind ?_
      rintro last _ passed _ rfl
      split
      · exact followed_resolveSome faithful _
      · exact followed_pure rfl
    · exact followed_pure rfl
  · refine (followed_of_steady (fun _ => Resolver.steady_firstFile? _) (.refl _)
      faithful.agrees).bind ?_
    rintro most _ found _ rfl
    exact followed_resolveFound faithful found

/-- An input stands for the same file in both editions. -/
theorem followed_resolveInput (input : String) (directory : Path) :
    Followed edition links (fun _ => Eq) (resolveInput input directory)
      (resolveInput input directory) := by
  refine (followed_isFile faithful _).bind ?_
  rintro more _ isFile _ rfl
  split
  · exact followed_resolveSome faithful _
  · refine (followed_of_steady (fun _ => Task.agreeing_isDirectory _) (.refl _)
      faithful.agrees).bind ?_
    rintro most _ isDirectory _ rfl
    split
    · exact followed_directoryEntry faithful _
    · split
      · refine (followed_resolving faithful.agrees
          (Resolver.steady_resolvePackage input directory)).bind ?_
        rintro last _ found _ rfl
        exact followed_resolveFound faithful found
      · exact followed_pure rfl

end

section

variable (presents : simplifier.Presents edition) (root directory : Path)

include presents root directory

/-- What an input shows is the same in both editions, up to the spelling. -/
theorem followed_ofInput (wanted : Option (List String)) (input : String) :
    Followed edition links (fun _ => Option.Rel (FileExports.Spelled edition.revision.spelling))
      (ofInput simplifier root directory wanted input)
      (ofInput simplifier root directory wanted input) := by
  refine (followed_resolveInput presents.faithful input directory).bind ?_
  rintro more _ found _ rfl
  cases found with
  | none => exact (followed_note _).bind fun _ _ _ _ _ => followed_pure .none
  | some path =>
    refine (followed_ofFile presents root path wanted).map fun _ _ found twin spelled => ?_
    rw [spelled.isEmpty_eq]
    split
    · exact .none
    · exact .some spelled

/-- The exports of inputs are the same in both editions but for the spelling of types and the texts
of their declarations, or missing for the same reason. -/
theorem followed_extract (inputs names : List String) :
    Followed edition links (fun _ => Listwise (FileExports.Spelled edition.revision.spelling))
      (extract simplifier root inputs directory names)
      (extract simplifier root inputs directory names) := by
  refine (followed_resolvePath presents.faithful directory).bind ?_
  rintro more _ base _ rfl
  have alike : Listwise Eq inputs inputs := .refl fun _ _ => rfl
  refine (followed_mapM (persists_const _) alike ?_).map fun _ _ found twins related =>
    related.filterMap_id
  rintro most _ input _ rfl
  exact followed_ofInput presents root base _ input

/-- Extractions that start afresh show the same in both editions, or fail for the same reason. -/
theorem extract_spelled (inputs names : List String) :
    Outcomes (Listwise (FileExports.Spelled edition.revision.spelling))
      ((extract simplifier root inputs directory names).outcomeFrom edition.tree
        (.fresh edition.root))
      ((extract simplifier root inputs directory names).outcomeFrom edition.copy
        (.fresh edition.root)) := by
  obtain ⟨more, answer, twinAfter, ran, _, _, outcomes⟩ :=
    followed_extract presents root directory inputs names ⟨.fresh edition.root, []⟩
      ⟨.fresh edition.root, []⟩ _ _ (matches_empty fromTree_fresh fromTree_fresh rfl) rfl
  rwa [← show _ = answer from congrArg Prod.fst ran] at outcomes

end

/-! ## Comments in files -/

/-- Comments in places where they go unnoticed change no simplified type of any export, whatever
else stands in the files. -/
theorem simplified_with_comments {move : List String → Nat → Nat} {tree copy : FileTree}
    (noted : tree.Noted move copy) (injective : ∀ names, Function.Injective (move names))
    (simplifier : Simplifier) (root directory : Path) (inputs names : List String) :
    Outcomes
      (fun found twins => found.map FileExports.simplified = twins.map FileExports.simplified)
      ((extract simplifier root inputs directory names).outcomeFrom tree (.fresh root))
      ((extract simplifier root inputs directory names).outcomeFrom copy (.fresh root)) := by
  have presents : simplifier.Presents ⟨tree.movedAt .same move, tree, copy, root⟩ :=
    ⟨noted.respelled.faithful injective root, fun same =>
      outcomes_eq (congrArg simplifier.cleaner.clean same)⟩
  exact (extract_spelled presents root directory inputs names).mono fun _ _ related =>
    related.map_eq fun _ _ => FileExports.simplified_eq

/-- A file with a type in parentheses and a function, so many places further on from the type on:
`export type T = (string)` and `export function f() \x7b return 1 \x7d`. -/
def noteFile (shift : Nat) (before after : List Node) : Node :=
  program [
    .mk "export_statement" true none 0 1 "" [
      .mk "type_alias_declaration" true (some "declaration") 7 1 "" [
        .mk "type_identifier" true (some "name") 12 1 "T" [],
        .mk "parenthesized_type" true (some "value") 16 1 "" (
          before ++ [.mk "predefined_type" true none (17 + shift) 1 "string" []])]],
    .mk "export_statement" true none (26 + shift) 2 "" [
      .mk "function_declaration" true (some "declaration") (33 + shift) 2 "" [
        .mk "identifier" true (some "name") (42 + shift) 2 "f" [],
        .mk "formal_parameters" true (some "parameters") (43 + shift) 2 "()" [],
        .mk "statement_block" true (some "body") (46 + shift) 2 "" [
          .mk "return_statement" true none (48 + shift) 2 "" (
            [.mk "number" true none (55 + shift) 2 "1" []] ++ after)]]]]

/-- A file tree with the file. -/
def noteTree (shift : Nat) (before after : List Node) : FileTree :=
  ⟨.directory [("a.ts", .file .empty (some (noteFile shift before after)))], []⟩

/-- The copy of the file with a comment in front of the type and one behind what is returned. -/
def notedCopy : FileTree := noteTree 8 [comment 17 1 "/* t */"] [comment 66 2 "/* r */"]

/-- Where the nodes of the file stand in the copy. -/
def noteMove (start : Nat) : Nat := if start < 17 then start else start + 8

theorem noteMove_injective : Function.Injective noteMove := by
  intro first second same
  unfold noteMove at same
  split at same <;> split at same <;> omega

/-- The tree in the example differs from its copy by one comment. -/
theorem noted_noteTree : (noteTree 0 [] []).Noted (fun _ => noteMove) notedCopy := by
  have type : GlossedAll noteMove "parenthesized_type"
      [.mk "predefined_type" true none 17 1 "string" []]
      [comment 17 1 "/* t */", .mk "predefined_type" true none 25 1 "string" []] :=
    .insert _ _ _ (.cons (.mk (.inl rfl) (.inl rfl) .nil) .nil)
  have returned : GlossedAll noteMove "return_statement"
      [.mk "number" true none 55 2 "1" []]
      [.mk "number" true none 63 2 "1" [], comment 66 2 "/* r */"] :=
    .cons (.mk (.inl rfl) (.inl rfl) .nil) (.insert _ _ _ .nil)
  have beforeType : Unnoticed "parenthesized_type"
      [.mk "predefined_type" true none 17 1 "string" []]
      [comment 17 1 "/* t */", .mk "predefined_type" true none 25 1 "string" []] := by
    refine .inr ⟨List.cons_ne_nil _ _, ?_⟩
    rintro _ ⟨⟩
    decide
  have behindValue : Unnoticed "return_statement"
      [.mk "number" true none 55 2 "1" []]
      [.mk "number" true none 63 2 "1" [], comment 66 2 "/* r */"] := by
    refine .inr ⟨List.cons_ne_nil _ _, ?_⟩
    rintro _ ⟨⟩
    decide
  have file : ∃ above, Glossed noteMove above (noteFile 0 [] [])
      (noteFile 8 [comment 17 1 "/* t */"] [comment 66 2 "/* r */"]) := by
    refine ⟨"", .mk (.inl rfl) (.inl rfl) (.cons ?aliasStatement (.cons ?function .nil))⟩
    case aliasStatement =>
      refine .mk (.inl rfl) (.inl rfl) (.cons (.mk (.inl rfl) (.inl rfl) ?_) .nil)
      exact .cons (.mk (.inl rfl) (.inl rfl) .nil) (.cons (.mk (.inl rfl) beforeType type) .nil)
    case function =>
      refine .mk (.inl rfl) (.inl rfl) (.cons (.mk (.inl rfl) (.inl rfl) ?_) .nil)
      refine .cons (.mk (.inl rfl) (.inl rfl) .nil) (.cons (.mk (.inl rfl) (.inl rfl) .nil) ?_)
      refine .cons (.mk (.inl rfl) (.inl rfl) (.cons ?_ .nil)) .nil
      exact .mk (.inl rfl) behindValue returned
  exact ⟨.directory (.cons (.file (.refl _) rfl file) .nil), rfl⟩

/-- A comment in front of a type in parentheses and one behind a returned value go unnoticed. -/
theorem noted_exports_alike :
    (noteTree 0 [] []).Noted (fun _ => noteMove) notedCopy ∧
      (∀ _ : List String, Function.Injective noteMove) ∧
      Outcomes
        (fun found twins => found.map FileExports.simplified = twins.map FileExports.simplified)
        ((extract plainSimplifier (.ofRoot []) ["a.ts"] (.ofRoot []) []).outcomeFrom
          (noteTree 0 [] []) (.fresh (.ofRoot [])))
        ((extract plainSimplifier (.ofRoot []) ["a.ts"] (.ofRoot []) []).outcomeFrom
          notedCopy (.fresh (.ofRoot []))) :=
  ⟨noted_noteTree, fun _ => noteMove_injective,
    simplified_with_comments noted_noteTree (fun _ => noteMove_injective) _ _ _ _ _⟩

/-- The file tree of a file with one exported type. -/
def aliasTree (value : Node) : FileTree :=
  ⟨.directory [("a.ts", .file .empty (some (program [aliasStatement "V" value])))], []⟩

/-- A union of strings and numbers, with some nodes between the two. -/
def unionWith (between : List Node) : Node :=
  .mk "union_type" true (some "value") 0 1 "" (
    [.mk "predefined_type" true none 0 1 "string" []] ++ between ++
      [.mk "predefined_type" true none 0 1 "number" []])

/-- The numbers of members of the unions that a file exports. -/
def memberCounts : String × Except String (List (String × String × Except String Shape)) → List Nat
  | (_, .ok entries) => entries.map fun entry =>
    match entry.2.2 with
    | .ok (.union members) => members.length
    | _ => 0
  | (_, .error _) => []

/-- The simplified exports of the file of a type. -/
def shownAlias (value : Node) : Except Failure
    (List (String × Except String (List (String × String × Except String Shape)))) :=
  ((extract plainSimplifier (.ofRoot []) ["a.ts"] (.ofRoot []) []).outcomeFrom (aliasTree value)
    (.fresh (.ofRoot []))).map (List.map FileExports.simplified)

/-- A comment between the members of a union is shown as one of them. -/
theorem comment_in_union_is_shown :
    Commented (unionWith []) (unionWith [comment 0 1 "/* c */"]) ∧
      shownAlias (unionWith []) ≠ shownAlias (unionWith [comment 0 1 "/* c */"]) := by
  constructor
  · exact .mk nofun (.cons (.mk nofun .nil) (.insert 0 1 _ (.cons (.mk nofun .nil) .nil)))
  · intro same
    have two : (shownAlias (unionWith [])).map (List.map memberCounts) = .ok [[2]] := by
      decide +kernel
    have three : (shownAlias (unionWith [comment 0 1 "/* c */"])).map (List.map memberCounts) =
        .ok [[3]] := by
      decide +kernel
    rw [same, three] at two
    cases two

end Catalogue
end ModuleAtlas
