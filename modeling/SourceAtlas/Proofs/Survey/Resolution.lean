import Mathlib.Data.List.Basic
import SourceAtlas.Survey.Dependency
import SourceAtlas.Survey.SourceFile
set_option autoImplicit false

namespace SourceAtlas

theorem intercalate_append {α : Type} (separator : List α) {first second : List (List α)}
    (left : first ≠ []) (right : second ≠ []) : separator.intercalate (first ++ second) =
      separator.intercalate first ++ separator ++ separator.intercalate second := by
  induction first with
  | nil => exact absurd rfl left
  | cons piece rest ih =>
    cases rest with
    | nil =>
      obtain ⟨next, later, rfl⟩ := List.exists_cons_of_ne_nil right
      simp [List.intercalate_cons_cons]
    | cons next later =>
      have behind := ih (List.cons_ne_nil _ _)
      rw [List.cons_append] at behind
      rw [List.cons_append, List.cons_append, List.intercalate_cons_cons, behind,
        List.intercalate_cons_cons]
      simp

/-- The components of a list are the first ones of another list just when the other list goes on
from it, if at all, with a separator. -/
theorem splitOn_prefix_iff {α : Type} [BEq α] [LawfulBEq α] (separator : α) (start whole : List α) :
    start.splitOn separator <+: whole.splitOn separator ↔
      ∃ rest, whole = start ++ rest ∧ (rest = [] ∨ ∃ later, rest = separator :: later) := by
  constructor
  · rintro ⟨more, cut⟩
    have joined := congrArg [separator].intercalate cut
    rw [List.intercalate_splitOn] at joined
    by_cases empty : more = []
    · rw [empty, List.append_nil, List.intercalate_splitOn] at joined
      exact ⟨[], by rw [joined, List.append_nil], .inl rfl⟩
    · have nonempty : start.splitOn separator ≠ [] := List.splitOnP_ne_nil _ _
      rw [intercalate_append _ nonempty empty, List.intercalate_splitOn] at joined
      refine ⟨separator :: [separator].intercalate more, ?_, .inr ⟨_, rfl⟩⟩
      rw [← joined, List.append_assoc, List.singleton_append]
  · rintro ⟨rest, rfl, rfl | ⟨later, rfl⟩⟩
    · simp only [List.append_nil, List.prefix_refl]
    · rw [List.splitOn_eq_splitOnP, List.splitOn_eq_splitOnP,
        List.splitOnP_append_cons start later (by simp)]
      exact List.prefix_append _ _

theorem splitOn_replaced (old new : Char) (cs : List Char) :
    (cs.map fun c => if c = old then new else c).splitOn new =
      cs.splitOnP fun c => c == old || c == new := by
  rw [List.splitOn_eq_splitOnP]
  induction cs with
  | nil => rfl
  | cons c cs ih =>
    rw [List.map_cons, List.splitOnP_cons_eq_if_modifyHead, List.splitOnP_cons_eq_if_modifyHead, ih]
    by_cases here : c = old
    · simp [here]
    · simp [here]

def nameComponents (name : String) : List (List Char) :=
  name.toList.splitOn '.'

/-- The components of the module that a path stands for: the path, less one extension at its end, is
cut at every slash and at every dot. -/
def pathComponents (relPath extension : String) : List (List Char) :=
  let stem := (relPath.toList.dropSuffix? ('.' :: extension.toList)).getD relPath.toList
  stem.splitOnP fun c => c == '/' || c == '.'

theorem before?_eq_dropSuffix? (tail text : List Char) :
    Text.before? tail text = text.dropSuffix? tail := by
  refine Option.ext fun first => ?_
  rw [Text.before?_eq_some_iff, List.dropSuffix?_eq_some_iff]
  simp

theorem nameComponents_modulePathFor (relPath extension : String) :
    nameComponents (modulePathFor relPath extension) = pathComponents relPath extension := by
  rw [nameComponents, modulePathFor, Text.replaced, String.toList_ofList, String.toList_ofList,
    splitOn_replaced, before?_eq_dropSuffix?, pathComponents]

theorem resolvesTo_iff (imported modulePath : String) : resolvesTo imported modulePath = true ↔
    ∃ rest, imported.toList = modulePath.toList ++ rest ∧
      (rest = [] ∨ ∃ later, rest = '.' :: later) := by
  rw [resolvesTo]
  cases found : Text.after? modulePath.toList imported.toList with
  | none =>
    simp only [Bool.false_eq_true, false_iff, not_exists, not_and]
    intro rest whole
    rw [(Text.after?_eq_some_iff _ _ rest).2 whole] at found
    cases found
  | some rest =>
    have whole := (Text.after?_eq_some_iff _ _ rest).1 found
    simp only [whole, List.append_cancel_left_eq, exists_eq_left']
    cases rest with
    | nil => simp
    | cons c later => simp

theorem resolvesTo_iff_components (imported modulePath : String) :
    resolvesTo imported modulePath = true ↔ nameComponents modulePath <+: nameComponents imported :=
  (resolvesTo_iff imported modulePath).trans (splitOn_prefix_iff '.' _ _).symm

/-- An import refers to the module of a path just when the components of the path are the first ones
of the import, and it is resolved to those of the given targets whose components are, in their order
and each as often as it is given. -/
theorem resolve_by_components (imported : String) :
    (∀ relPath extension, resolvesTo imported (modulePathFor relPath extension) = true ↔
      pathComponents relPath extension <+: nameComponents imported) ∧
    ∀ targets, resolve targets imported =
      targets.filter fun target => nameComponents target.modulePath <+: nameComponents imported := by
  constructor
  · intro relPath extension
    rw [resolvesTo_iff_components, nameComponents_modulePathFor]
  · intro targets
    refine List.filter_congr fun target _ => ?_
    rw [Bool.eq_iff_iff, resolvesTo_iff_components, decide_eq_true_eq]

/-- A directory with a dot, and an import that goes on within a component. -/
example :
    pathComponents "v1.2/pkg/.py" "py" = ["v1".toList, "2".toList, "pkg".toList, []] ∧
      resolvesTo "v1.2.pkg.." (modulePathFor "v1.2/pkg/.py" "py") = true ∧
      resolvesTo "v1.2.pkg.x" (modulePathFor "v1.2/pkg/.py" "py") = false := by
  decide +kernel

end SourceAtlas
