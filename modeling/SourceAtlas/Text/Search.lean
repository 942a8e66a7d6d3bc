set_option autoImplicit false

namespace SourceAtlas.Text

/-- Whether some part of a list of characters is equal to another list. -/
def holds (part : List Char) : List Char → Bool
  | [] => part.isEmpty
  | c :: cs => part.isPrefixOf (c :: cs) || holds part cs

theorem holds_iff (part cs : List Char) :
    holds part cs = true ↔ ∃ before after, cs = before ++ part ++ after := by
  induction cs with
  | nil => simp [holds, List.isEmpty_iff]
  | cons c cs ih =>
    simp only [holds, Bool.or_eq_true, List.isPrefixOf_iff_prefix, ih]
    constructor
    · rintro (⟨after, h⟩ | ⟨before, after, h⟩)
      · exact ⟨[], after, by simpa using h.symm⟩
      · exact ⟨c :: before, after, by simp [h]⟩
    · rintro ⟨before, after, h⟩
      cases before with
      | nil => exact .inl ⟨after, by simpa using h.symm⟩
      | cons d before => exact .inr ⟨before, after, by simp_all⟩

def contains (text part : String) : Bool :=
  holds part.toList text.toList

def endsIn (text part : String) : Bool :=
  part.toList.isSuffixOf text.toList

def after? (start text : List Char) : Option (List Char) :=
  if start.isPrefixOf text then some (text.drop start.length) else none

def before? (tail text : List Char) : Option (List Char) :=
  if tail.isSuffixOf text then some (text.take (text.length - tail.length)) else none

theorem after?_eq_some_iff (start text rest : List Char) :
    after? start text = some rest ↔ text = start ++ rest := by
  unfold after?
  split
  · next h =>
    obtain ⟨more, rfl⟩ := List.isPrefixOf_iff_prefix.1 h
    simp [eq_comm]
  · next h =>
    simp only [reduceCtorEq, false_iff]
    rintro rfl
    exact h (by simp [List.isPrefixOf_iff_prefix])

theorem before?_eq_some_iff (tail text first : List Char) :
    before? tail text = some first ↔ text = first ++ tail := by
  unfold before?
  split
  · next h =>
    obtain ⟨more, rfl⟩ := List.isSuffixOf_iff_suffix.1 h
    simp [eq_comm]
  · next h =>
    simp only [reduceCtorEq, false_iff]
    rintro rfl
    exact h (by simp [List.isSuffixOf_iff_suffix])

def replaced (old new : Char) (text : String) : String :=
  String.ofList (text.toList.map fun c => if c = old then new else c)

end SourceAtlas.Text
