import SourceAtlas.Diagram.File
import SourceAtlas.Proofs.Diagram.Recognition
import SourceAtlas.Proofs.Files.Content
set_option autoImplicit false

namespace SourceAtlas

open Json

namespace Diagram

theorem readDocument_recognizes : Recognizes readDocument IsDocument := by
  have record := Draft.add_collects.record Draft.empty
    (fun key => by unfold Draft.has; split <;> rfl) (by simp [shape])
  refine recognizes_of_visible ?_ ?_ ?_ ?_
  · rintro word (⟨inner, keys, rfl, -⟩ | ⟨inner, keys, rfl, -⟩)
    · exact ⟨'{', inner, rfl, by decide, by decide⟩
    · exact ⟨'[', inner, rfl, by decide, by decide⟩
  · intro cs
    unfold readDocument
    rw [skipGap_skipGap]
  · intro cs diagram rest read visible
    unfold readDocument at read
    rw [visible] at read
    split at read
    · obtain ⟨word, same, isListed⟩ := readListed_sound read
      exact ⟨word, same, .inr isListed⟩
    · obtain ⟨⟨draft, behind⟩, gathered, read⟩ := bind_eq_ok.1 read
      obtain ⟨-, rfl⟩ := Prod.mk.inj (Except.ok.inj read)
      obtain ⟨word, same, isRecord⟩ := record.1 gathered (by simp [shape])
      exact ⟨word, same, .inl isRecord⟩
    · exact absurd read refuse_ne_ok
  · rintro word rest (isRecord | isListed) visible _
    · obtain ⟨inner, rfl, gathered⟩ := record.2 isRecord
      obtain ⟨draft, gathered, -⟩ := gathered rest
      refine ⟨draft.finish, ?_⟩
      unfold readDocument
      rw [visible]
      exact bind_eq_ok.2 ⟨_, gathered, rfl⟩
    · obtain ⟨inner, rfl, read⟩ := readListed_complete isListed
      obtain ⟨diagram, read⟩ := read rest
      refine ⟨diagram, ?_⟩
      unfold readDocument
      rw [visible]
      exact read

theorem readEnd_eq_ok {cs : List Char} : readEnd cs = .ok () ↔ IsSpace cs := by
  unfold readEnd
  constructor
  · intro read
    split at read
    · next skipped =>
      obtain ⟨gap, rfl, space⟩ := gap_of_skipGap skipped
      rwa [List.append_nil]
    · cases read
  · intro space
    have skipped := skipGap_append space []
    rw [List.append_nil] at skipped
    rw [skipped]
    rfl

theorem read_iff (text : String) : (∃ diagram, read text = .ok diagram) ↔ IsCanvas text.toList := by
  constructor
  · rintro ⟨diagram, taken⟩
    obtain ⟨⟨found, rest⟩, document, taken⟩ := bind_eq_ok.1 taken
    obtain ⟨⟨⟩, ended, -⟩ := bind_eq_ok.1 taken
    obtain ⟨gap, word, same, space, isDocument⟩ := readDocument_recognizes.sound document
    exact ⟨gap, word, rest, same, space, isDocument, readEnd_eq_ok.1 ended⟩
  · rintro ⟨before, document, behind, same, space, isDocument, space'⟩
    have ends : EndsNumber behind := by
      have ends := endsNumber_gap space' endsNumber_nil
      rwa [List.append_nil] at ends
    obtain ⟨diagram, taken⟩ := readDocument_recognizes.complete space isDocument ends
    refine ⟨diagram, ?_⟩
    rw [read, same]
    exact bind_eq_ok.2 ⟨_, taken, bind_eq_ok.2 ⟨_, readEnd_eq_ok.2 space', rfl⟩⟩

end Diagram

theorem Node.isJson {word : List Char} (isRecord : IsRecord Node.shape word) : IsJson word := by
  refine isJson_of_isRecord (fun key word taken => ?_) isRecord
  unfold Shape.value Node.shape at taken
  simp only at taken
  split at taken
  case h_8 => exact isJson_of_nullable (fun _ => isJson_of_isString) taken
  case h_9 => exact ⟨_, taken.any⟩
  all_goals first | exact isJson_of_isString taken | exact isJson_of_isInRange taken

theorem Side.isJson {word : List Char} (isSide : IsSide word) : IsJson word := by
  rcases isSide with ⟨side, spells⟩ | ⟨inner, rfl, entries⟩
  · exact isJson_of_isString ⟨side.name, spells⟩
  · refine isJson_of_entries (fun _ _ isMember => isMember.mono ?_ fun _ => isJson_of_isNull) entries
    rintro word ⟨side, spells⟩
    exact spells.isQuotation

theorem Edge.isJson {word : List Char} (isRecord : IsRecord Edge.shape word) : IsJson word := by
  refine isJson_of_isRecord (fun key word taken => ?_) isRecord
  unfold Shape.value Edge.shape at taken
  simp only at taken
  split at taken
  case h_8 => exact ⟨_, taken.any⟩
  all_goals
    first
      | exact isJson_of_isString taken
      | exact isJson_of_nullable (fun _ => Side.isJson) taken
      | exact isJson_of_nullable (fun _ => isJson_of_isString) taken

namespace Diagram

theorem value_isJson (key : String) (word : List Char) (taken : shape.value key word) :
    IsJson word := by
  unfold Shape.value shape at taken
  simp only at taken
  split at taken
  · exact isJson_of_isSequence (fun _ => Node.isJson) taken
  · exact isJson_of_isSequence (fun _ => Edge.isJson) taken
  · exact taken

theorem IsDocument.isJson {word : List Char} (isDocument : IsDocument word) : IsJson word := by
  rcases isDocument with isRecord | ⟨inner, keys, rfl, entries, -⟩
  · exact isJson_of_isRecord value_isJson isRecord
  · obtain ⟨labels, entries⟩ := entries.relabel (fun _ : Unit => IsJson)
      fun key word taken => ⟨(), value_isJson key word taken⟩
    exact isJson_iff.2 (.inr (.inl ⟨inner, labels, rfl, entries⟩))

theorem IsCanvas.isJson {cs : List Char} (isCanvas : IsCanvas cs) : Padded IsJson cs := by
  obtain ⟨before, document, behind, rfl, space, isDocument, space'⟩ := isCanvas
  exact ⟨before, document, behind, rfl, space, isDocument.isJson, space'⟩

theorem readBytes_file {tree : FileTree} {path : String} {location : Location}
    {contents : ByteArray} (found : tree.view? path = some (location, .file contents)) :
    tree.readBytes path = .ok contents := by
  rw [FileTree.readBytes, (FileTree.view?_eq_some_iff tree path _ _).1 found]
  rfl

theorem load_error {tree : FileTree} {path : String} {error : FileError}
    (read : tree.readBytes path = .error error) :
    load tree path = if error = .notFound then .ok empty else .error (.file error) := by
  have text : tree.readText path = .error error := by
    rw [FileTree.readText, read]
    rfl
  rw [load, text]
  cases error <;> rfl

theorem load_text {tree : FileTree} {path text : String} {contents : ByteArray}
    (read : tree.readBytes path = .ok contents)
    (decoded : String.fromUTF8? contents = some text) : load tree path = ofText path text := by
  have text : tree.readText path = .ok text := by
    rw [FileTree.readText, read]
    simp only [bind, Except.bind, decoded]
  rw [load, text]

theorem load_noText {tree : FileTree} {path : String} {contents : ByteArray}
    (read : tree.readBytes path = .ok contents) (decoded : String.fromUTF8? contents = none) :
    load tree path = .error (.file .notText) := by
  have text : tree.readText path = .error .notText := by
    rw [FileTree.readText, read]
    simp only [bind, Except.bind, decoded]
  rw [load, text]

/-- Where there is no file, a diagram is empty. From a file it is loaded just if the contents are a
text of the grammar, which is always one of a value; any other text is malformed, and contents that
are no text are an error of the file. -/
theorem load_exact (tree : FileTree) (path : String) :
    (∀ error, tree.readBytes path = .error error →
      load tree path = if error = .notFound then .ok empty else .error (.file error)) ∧
    ∀ location contents, tree.view? path = some (location, .file contents) →
      (String.fromUTF8? contents = none → load tree path = .error (.file .notText)) ∧
      ∀ text, String.fromUTF8? contents = some text →
        ((∃ diagram, load tree path = .ok diagram) ↔ IsCanvas text.toList) ∧
        (IsCanvas text.toList → Padded IsJson text.toList) ∧
        (¬ IsCanvas text.toList →
          ∃ complaint, load tree path = .error (.malformedDiagram path complaint)) := by
  refine ⟨fun error => load_error, fun location contents found => ?_⟩
  have read := readBytes_file found
  refine ⟨load_noText read, fun text decoded => ?_⟩
  have loaded := load_text read decoded
  have accepted : (∃ diagram, load tree path = .ok diagram) ↔ IsCanvas text.toList := by
    rw [← read_iff, loaded, ofText]
    cases Diagram.read text <;> simp
  refine ⟨accepted, IsCanvas.isJson, fun other => ?_⟩
  rw [← read_iff] at other
  rw [loaded, ofText]
  cases taken : Diagram.read text with
  | ok diagram => exact absurd ⟨diagram, taken⟩ other
  | error fault => exact ⟨_, rfl⟩

/-- A document with a member of its own, which no reader of numbers could take, and an edge with a
side and a label that is null. -/
theorem load_exact_edge :
    let text := "\x7b\"v\":1e999,\"edges\":[\x7b\"id\":\"e\",\"fromNode\":\"a\",\"toNode\":\"b\"," ++
      "\"toSide\":\"top\",\"label\":null\x7d]\x7d\n"
    let tree := FileTree.empty.add ["c"] (.file text.toUTF8)
    tree.readBytes "d" = .error .notFound ∧ load tree "d" = .ok empty ∧
      tree.view? "c" = some (["c"], .file text.toUTF8) ∧
      String.fromUTF8? text.toUTF8 = some text ∧ IsCanvas text.toList ∧
      ∃ diagram, load tree "c" = .ok diagram := by
  intro text tree
  have missing : tree.readBytes "d" = .error .notFound := by
    have vacant : tree.locate .view "d" = .ok (.vacant ["d"]) := ok_of_toOption (by decide +kernel)
    rw [FileTree.readBytes, vacant]
    rfl
  have found : tree.view? "c" = some (["c"], .file text.toUTF8) := by decide +kernel
  have decoded := FileTree.decoded_toUTF8 text
  have edge : read text = .ok ⟨[], [{ Edge.link "a" "b" with id := "e", fromSide := none }]⟩ :=
    ok_of_toOption (by decide +kernel)
  have isCanvas := (read_iff text).1 ⟨_, edge⟩
  have exact' := ((load_exact tree "c").2 _ _ found).2 text decoded
  exact ⟨missing, (load_exact tree "d").1 _ missing, found, decoded, isCanvas, exact'.1.2 isCanvas⟩

/-- A list is a document too, and bytes that are no text are no malformed one. -/
theorem list_and_bytes :
    let tree := (FileTree.empty.add ["a"] (.file "[]".toUTF8)).add ["b"] (.file ⟨#[0xff]⟩)
    load tree "a" = .ok empty ∧ load tree "b" = .error (.file .notText) := by
  intro tree
  have list : tree.view? "a" = some (["a"], .file "[]".toUTF8) := by decide +kernel
  have bytes : tree.view? "b" = some (["b"], .file ⟨#[0xff]⟩) := by decide +kernel
  have nothing : read "[]" = .ok empty := ok_of_toOption (by decide +kernel)
  have noText : String.fromUTF8? ⟨#[0xff]⟩ = none := by decide +kernel
  refine ⟨?_, load_noText (readBytes_file bytes) noText⟩
  rw [load_text (readBytes_file list) (FileTree.decoded_toUTF8 "[]"), ofText, nothing]

end Diagram

end SourceAtlas
