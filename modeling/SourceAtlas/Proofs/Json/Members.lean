import Mathlib.Data.List.Forall2
import SourceAtlas.Json.Value
set_option autoImplicit false

namespace SourceAtlas.Json.Members

theorem mem_set {key : String} {value : Json} {members : Members} {m : String × Json}
    (mem : m ∈ members.set key value) : m = (key, value) ∨ m ∈ members := by
  induction members with
  | nil => exact .inl (List.mem_singleton.1 mem)
  | cons first members ih =>
    obtain ⟨k, v⟩ := first
    rw [Members.set] at mem
    split at mem
    · exact List.mem_cons.1 mem
    split at mem
    · exact (List.mem_cons.1 mem).imp_right (List.mem_cons_of_mem _)
    · rcases List.mem_cons.1 mem with rfl | mem
      · exact .inr (List.mem_cons_self ..)
      · exact (ih mem).imp_right (List.mem_cons_of_mem _)

theorem sorted_set {members : Members} (sorted : members.Sorted) (key : String) (value : Json) :
    (members.set key value).Sorted := by
  induction members with
  | nil => exact List.pairwise_singleton _ _
  | cons first members ih =>
    obtain ⟨k, v⟩ := first
    obtain ⟨above, others⟩ := List.pairwise_cons.1 sorted
    rw [Members.set]
    split
    · next before =>
      refine List.pairwise_cons.2 ⟨fun m mem => ?_, sorted⟩
      rcases List.mem_cons.1 mem with rfl | mem
      · exact before
      · exact String.lt_trans before (above m mem)
    split
    · next same =>
      subst same
      exact List.pairwise_cons.2 ⟨above, others⟩
    · next notBefore other =>
      refine List.pairwise_cons.2 ⟨fun m mem => ?_, ih others⟩
      rcases mem_set mem with rfl | mem
      · exact Decidable.of_not_not fun notAfter =>
          other (String.le_antisymm (String.not_lt.1 notAfter) (String.not_lt.1 notBefore))
      · exact above m mem

theorem set_last {members : Members} {key : String} (value : Json)
    (above : ∀ m ∈ members, m.1 < key) : members.set key value = members ++ [(key, value)] := by
  induction members with
  | nil => rfl
  | cons first members ih =>
    obtain ⟨k, v⟩ := first
    have before : k < key := above (k, v) (List.mem_cons_self ..)
    have other : key ≠ k := fun same => String.lt_irrefl key (same ▸ before)
    rw [Members.set, if_neg (String.lt_asymm before), if_neg other,
      ih fun m mem => above m (List.mem_cons_of_mem _ mem)]
    rfl

@[simp] theorem get?_nil (key : String) : Members.get? key [] = none := rfl

theorem get?_cons (key k : String) (value : Json) (members : Members) :
    Members.get? key ((k, value) :: members) =
      if k = key then some value else members.get? key := by
  by_cases same : k = key
  · simp [Members.get?, same]
  · simp [Members.get?, same]

@[simp] theorem get?_set (members : Members) (key k : String) (value : Json) :
    (members.set key value).get? k = if key = k then some value else members.get? k := by
  induction members with
  | nil => exact get?_cons ..
  | cons first members ih =>
    obtain ⟨l, v⟩ := first
    rw [Members.set]
    split
    · exact get?_cons ..
    split
    · next same =>
      subst same
      rw [get?_cons, get?_cons]
      split <;> rfl
    · next other =>
      rw [get?_cons, get?_cons, ih]
      by_cases first : l = k
      · rw [if_pos first, if_pos first, if_neg fun same => other (same.trans first.symm)]
      · rw [if_neg first, if_neg first]

theorem get?_append (key : String) (front back : Members) :
    Members.get? key (front ++ back) = (front.get? key).or (back.get? key) := by
  induction front with
  | nil => rfl
  | cons first front ih =>
    obtain ⟨k, v⟩ := first
    rw [List.cons_append, get?_cons, get?_cons, ih]
    split <;> rfl

theorem get?_eq_none {key : String} {members : Members} :
    members.get? key = none ↔ ∀ m ∈ members, m.1 ≠ key := by
  simp [Members.get?]

theorem mem_of_get? {key : String} {members : Members} {value : Json}
    (found : members.get? key = some value) : (key, value) ∈ members := by
  obtain ⟨m, first, rfl⟩ := Option.map_eq_some_iff.1 found
  have same : m.1 = key := by simpa using List.find?_some first
  exact same ▸ List.mem_of_find?_eq_some first

end SourceAtlas.Json.Members
