import ModuleAtlas.Proofs.Json.Reading
import ModuleAtlas.Proofs.Json.Strict
import ModuleAtlas.Proofs.Task.Steady
import ModuleAtlas.Resolve.Resolver

/-!
# Compiler options as they are written

A file of compiler options is a JSON document with comments between its tokens and commas after last
elements.  It is read as the value it writes, with one exception: a comment that stands between a
comma after the last element and the bracket hides the bracket from the comma, and the whole file is
refused.  A document without comments is read as it stands.
-/

namespace ModuleAtlas
namespace Resolver

theorem hasNull_of_text? {tree : FileTree} {path : Path} {text : List Char}
    (known : tree.text? path = some text) : path.hasNull = false := by
  cases null : path.hasNull with
  | false => rfl
  | true =>
    have nowhere : tree.lookup path = .error .nullCharacter := by
      rw [FileTree.lookup, null, if_pos rfl]
    simp [FileTree.text?, FileTree.bytes?, nowhere] at known

/-- The text of a document that writes an object, without its comments, holds that object. -/
theorem readObject_written
    {tree : FileTree} {path : Path} {document : Json.Document} {entries : List (String × Json)}
    (known : tree.text? path = some document.text)
    (isObject : document.body.value = .object entries) (otherwise : ManifestFault) :
    readObject tree path Json.stripComments otherwise =
      if document.body.commasClear then .ok (.object entries)
      else .error (.manifest path .unreadable) := by
  unfold readObject
  rw [known]
  simp only [Json.stripComments_text, Json.parse_bare, isObject]
  cases document.body.commasClear <;> rfl

theorem readOptions_eq {tree : FileTree} {path : Path} {text : List Char}
    (known : tree.text? path = some text) (journal : Journal Resolver) :
    readOptions path tree journal =
      (readObject tree path Json.stripComments .noOptions, journal) := by
  unfold readOptions
  rw [hasNull_of_text? known]
  have files : (Task.files : Task Resolver FileTree) tree journal = (.ok tree, journal) := rfl
  change (Task.files >>= _) tree journal = _
  rw [Task.bind_of_ok files]
  cases readObject tree path Json.stripComments .noOptions <;> rfl

/-- The options in a file whose text writes an object are that object, unless a comment parts a
comma after a last element from its bracket; then they are refused.  Nothing is told, and nothing is
kept. -/
theorem readOptions_written
    {tree : FileTree} {path : Path} {document : Json.Document} {entries : List (String × Json)}
    (known : tree.text? path = some document.text)
    (isObject : document.body.value = .object entries) (journal : Journal Resolver) :
    readOptions path tree journal =
      (if document.body.commasClear then .ok (.object entries)
        else .error (.manifest path .unreadable), journal) := by
  rw [readOptions_eq known, readObject_written known isObject]

/-- The path of a file of compiler options. -/
def optionsPath : Path := Path.ofText "tsconfig.json"

/-- Nothing but a file of compiler options that holds a document. -/
def optionsTree (document : Json.Document) : FileTree :=
  ⟨.directory [("tsconfig.json", .file (String.ofList document.text).toUTF8 none)], []⟩

/-- An array with a comma after its last item, and a comment wherever else there may be one. -/
def remarkedOptions : Json.Document where
  before := [.line [' ', 'a'] (by decide)]
  body := .object [.block ['"', ','] (by decide)]
    (.last ⟨[.plain 'a' (by decide)], [], [.blank ' ' rfl]⟩
      (.array [] (.last (.truth true) [.block [] (by decide)] (some [.blank ' ' rfl])))
      [.line ['b'] (by decide)] none)
  after := [.blank '\n' rfl]
  remark := some ⟨['c'], by decide⟩

theorem readOptions_remarkedOptions :
    (optionsTree remarkedOptions).text? optionsPath = some remarkedOptions.text ∧
      remarkedOptions.body.value = .object [("a", .array [.bool true])] ∧
      readOptions optionsPath (optionsTree remarkedOptions) ⟨fresh (Path.ofText "."), []⟩ =
        (.ok (.object [("a", .array [.bool true])]), ⟨fresh (Path.ofText "."), []⟩) := by
  have known : (optionsTree remarkedOptions).text? optionsPath = some remarkedOptions.text := by
    decide +kernel
  have isObject : remarkedOptions.body.value = .object [("a", .array [.bool true])] := rfl
  exact ⟨known, isObject, readOptions_written known isObject ⟨fresh (Path.ofText "."), []⟩⟩

/-- One truth value, a comma after it, and a comment before the brace. -/
def endedOptions : Json.Document where
  before := []
  body := .object [] (.last ⟨[.plain 'a' (by decide)], [], [.blank ' ' rfl]⟩ (.truth true) []
    (some [.blank ' ' rfl, .line [' ', 'b'] (by decide)]))
  after := []
  remark := none

/-- The comment after the last comma costs the whole file. -/
theorem readOptions_endedOptions :
    String.ofList endedOptions.text = "\x7b\"a\": true, // b\n\x7d" ∧
      (optionsTree endedOptions).text? optionsPath = some endedOptions.text ∧
      endedOptions.body.value = .object [("a", .bool true)] ∧
      (readOptions optionsPath).outcomeFrom (optionsTree endedOptions) (fresh (Path.ofText ".")) =
        .error (.manifest optionsPath .unreadable) := by
  have known : (optionsTree endedOptions).text? optionsPath = some endedOptions.text := by
    decide +kernel
  have isObject : endedOptions.body.value = .object [("a", .bool true)] := rfl
  refine ⟨by decide, known, isObject, ?_⟩
  rw [Task.outcomeFrom, readOptions_eq known, readObject_written known isObject]
  rfl

/-! ## Options without comments -/

/-- Nothing is taken out of a strict document before it is read: a file of compiler options with its
text is read as any other object would be. -/
theorem strict_options_unchanged {text : List Char} (strict : Json.IsStrict text) :
    Json.stripComments text = text ∧
      ∀ (tree : FileTree) (path : Path) (journal : Journal Resolver), tree.text? path = some text →
        readOptions path tree journal = (readObject tree path id .noOptions, journal) := by
  have unchanged := Json.stripComments_of_isStrict strict
  refine ⟨unchanged, fun tree path journal known => ?_⟩
  rw [readOptions_eq known]
  unfold readObject
  rw [known]
  dsimp only
  rw [unchanged]
  rfl

/-- An object whose strings look like comments, like the end of a string and like a last comma. -/
def deceptiveOptions : List Char :=
  "\x7b\"//\" : [ \"/* */\" ,\"\\\"/*\",\t\",]\\\\\"\n] \x7d\n".toList

theorem isStrict_deceptiveOptions : Json.IsStrict deceptiveOptions := by
  have nothing : Json.IsSpaces [] := by simp [Json.IsSpaces]
  have blank : Json.IsSpaces [' '] := by simp [Json.IsSpaces, Json.Parser.isSpace]
  have tab : Json.IsSpaces ['\t'] := by simp [Json.IsSpaces, Json.Parser.isSpace]
  have line : Json.IsSpaces ['\n'] := by simp [Json.IsSpaces, Json.Parser.isSpace]
  let slash : Json.Piece := .plain '/' (by decide)
  let star : Json.Piece := .plain '*' (by decide)
  have comment := Json.Strict.element blank
    (.string [slash, star, .plain ' ' (by decide), star, slash]) blank
  have quote := Json.Strict.element nothing (.string [.escape '"' '"' rfl, slash, star]) nothing
  have comma := Json.Strict.element tab
    (.string [.plain ',' (by decide), .plain ']' (by decide), .escape '\\' '\\' rfl]) line
  have items := Json.Strict.moreElements comment (.moreElements quote (.lastElement comma))
  have value := Json.Strict.element blank (.array items) blank
  have entry := Json.Strict.member [slash, slash] nothing blank value
  have whole := Json.Strict.element nothing (.object (.lastMember entry)) line
  refine Eq.mp (congrArg Json.IsStrict ?_) whole
  decide +kernel

/-- A file tree with a file of compiler options that has a text. -/
def treeWithOptions (text : List Char) : FileTree :=
  ⟨.directory [("tsconfig.json", .file (String.ofList text).toUTF8 none)], []⟩

theorem deceptive_options_unchanged :
    Json.IsStrict deceptiveOptions ∧
      (treeWithOptions deceptiveOptions).text? optionsPath = some deceptiveOptions ∧
      Json.stripComments deceptiveOptions = deceptiveOptions ∧
      readOptions optionsPath (treeWithOptions deceptiveOptions) ⟨fresh (Path.ofText "."), []⟩ =
        (readObject (treeWithOptions deceptiveOptions) optionsPath id .noOptions,
          ⟨fresh (Path.ofText "."), []⟩) ∧
      ((readObject (treeWithOptions deceptiveOptions) optionsPath id .noOptions).toOption.bind
        (Json.get? "//")).bind Json.textList? = some ["/* */", "\"/*", ",]\\"] := by
  have known : (treeWithOptions deceptiveOptions).text? optionsPath = some deceptiveOptions := by
    decide +kernel
  obtain ⟨unchanged, read⟩ := strict_options_unchanged isStrict_deceptiveOptions
  refine ⟨isStrict_deceptiveOptions, known, unchanged, read _ _ _ known, ?_⟩
  decide +kernel

end Resolver
end ModuleAtlas
