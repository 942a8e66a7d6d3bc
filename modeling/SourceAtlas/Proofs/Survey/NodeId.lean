import Mathlib.Data.List.Nodup
import SourceAtlas.Survey.Chart
set_option autoImplicit false

namespace SourceAtlas

def numbered (base : String) (number : Nat) : String :=
  base ++ "~" ++ toString number

theorem numbered_toList (base : String) (number : Nat) :
    (numbered base number).toList = base.toList ++ '~' :: Nat.toDigits 10 number := by
  simp [numbered]

theorem numbered_inj (base : String) {m n : Nat} (h : numbered base m = numbered base n) :
    m = n := by
  have lists := congrArg String.toList h
  rw [numbered_toList, numbered_toList] at lists
  have digits := (List.cons.inj (List.append_cancel_left lists)).2
  simpa using congrArg (fun cs => Nat.ofDigitChars 10 cs 0) digits

theorem numbered_ne (base : String) (number : Nat) : base ≠ numbered base number := by
  intro h
  have lengths := congrArg (fun s => s.toList.length) h
  simp only [numbered_toList, List.length_append, List.length_cons] at lengths
  omega

theorem numberedId_spec (taken : List String) (base : String) (fuel first : Nat) :
    ∃ last, numberedId taken base fuel first = numbered base last ∧ first ≤ last ∧
      (∀ n, first ≤ n → n < last → numbered base n ∈ taken) ∧
      (numbered base last ∉ taken ∨ last = first + fuel) := by
  induction fuel generalizing first with
  | zero => exact ⟨first, rfl, Nat.le_refl _, fun n h₁ h₂ => by omega, .inr rfl⟩
  | succ fuel ih =>
    rw [numberedId]
    split
    · next known =>
      obtain ⟨last, found, bound, passed, stop⟩ := ih (first + 1)
      refine ⟨last, found, by omega, fun n h₁ h₂ => ?_, stop.imp id fun h => by omega⟩
      by_cases here : n = first
      · rw [here]
        exact List.contains_iff_mem.1 known
      · exact passed n (by omega) h₂
    · next free =>
      refine ⟨first, rfl, Nat.le_refl _, fun n h₁ h₂ => by omega, .inl fun mem => ?_⟩
      exact free (List.contains_iff_mem.2 mem)

/-- Where an id and a number of its numbered forms are taken, more ids are taken than these forms. -/
theorem lt_length_of_taken {taken : List String} {base : String} (mem : base ∈ taken) (count : Nat)
    (occupied : ∀ n, 2 ≤ n → n < 2 + count → numbered base n ∈ taken) : count < taken.length := by
  have forms : ((List.range' 2 count).map (numbered base)).Nodup :=
    (List.nodup_range' ..).map fun m n => numbered_inj base
  have apart : base ∉ (List.range' 2 count).map (numbered base) := by
    intro h
    obtain ⟨n, -, same⟩ := List.mem_map.1 h
    exact numbered_ne base n same.symm
  have inside : (base :: (List.range' 2 count).map (numbered base)) ⊆ taken := by
    refine List.cons_subset.2 ⟨mem, fun id h => ?_⟩
    obtain ⟨n, range, rfl⟩ := List.mem_map.1 h
    rw [List.mem_range'_1] at range
    exact occupied n range.1 range.2
  have length := (List.nodup_cons.2 ⟨apart, forms⟩).length_le_of_subset inside
  simp only [List.length_cons, List.length_map, List.length_range'] at length
  omega

theorem freeId_spec (taken : List String) (base : String) :
    (base ∉ taken ∧ freeId taken base = base) ∨
    (base ∈ taken ∧ ∃ n, 2 ≤ n ∧ freeId taken base = numbered base n ∧ numbered base n ∉ taken ∧
      ∀ m, 2 ≤ m → m < n → numbered base m ∈ taken) := by
  rw [freeId]
  split
  · next known =>
    have mem := List.contains_iff_mem.1 known
    obtain ⟨last, found, bound, passed, stop⟩ := numberedId_spec taken base taken.length 2
    refine .inr ⟨mem, last, bound, found, fun held => ?_, passed⟩
    obtain free | rfl := stop
    · exact free held
    · exact absurd (lt_length_of_taken mem taken.length passed) (Nat.lt_irrefl _)
  · next free => exact .inl ⟨fun mem => free (List.contains_iff_mem.2 mem), rfl⟩

theorem freeId_not_mem (taken : List String) (base : String) : freeId taken base ∉ taken := by
  obtain ⟨free, same⟩ | ⟨-, n, -, same, free, -⟩ := freeId_spec taken base
  · rwa [same]
  · rwa [same]

theorem freeId_toList (taken : List String) (base : String) :
    ∃ tail, (freeId taken base).toList = base.toList ++ tail ∧ '_' ∉ tail := by
  obtain ⟨-, same⟩ | ⟨-, n, -, same, -, -⟩ := freeId_spec taken base
  · exact ⟨[], by rw [same, List.append_nil], List.not_mem_nil⟩
  · exact ⟨_, by rw [same, numbered_toList], by simp [Nat.underscore_not_in_toDigits]⟩

theorem numberedId_congr {taken others : List String} (same : taken.Perm others) (base : String)
    (fuel first : Nat) : numberedId taken base fuel first = numberedId others base fuel first := by
  induction fuel generalizing first with
  | zero => rfl
  | succ fuel ih => rw [numberedId, numberedId, ih, same.contains_eq]

theorem freeId_congr {taken others : List String} (same : taken.Perm others) (base : String) :
    freeId taken base = freeId others base := by
  rw [freeId, freeId, same.contains_eq, same.length_eq, numberedId_congr same]

namespace Chart

def ids (chart : Chart) : List String :=
  chart.nodes.map Node.id

/-- The ids that are kept as taken are those of the nodes, the last one first. -/
def InStep (chart : Chart) : Prop :=
  chart.taken = chart.ids.reverse

theorem empty_inStep (style : Style) : (empty style).InStep :=
  rfl

theorem InStep.freeId_eq {chart : Chart} (inStep : chart.InStep) (base : String) :
    freeId chart.taken base = freeId chart.ids base := by
  rw [inStep]
  exact freeId_congr (List.reverse_perm _) base

theorem InStep.addFile {chart : Chart} (inStep : chart.InStep) (file : SourceFile) (layer : Layer)
    (responsibility : String) (x y : Int) :
    (chart.addFile file layer responsibility x y).2.InStep := by
  rw [InStep, ids, Chart.addFile, List.map_append, List.reverse_append, ← ids, ← inStep]
  rfl

end Chart

def Sealed (mark cs : List Char) : Prop :=
  mark <:+ cs ∧ ∀ before after, cs = before ++ mark ++ after → after = []

def Stamped (mark : List Char) (id : String) : Prop :=
  ∃ base tail, id.toList = base ++ tail ∧ Sealed mark base ∧ '_' ∉ tail

theorem Sealed.eq_of_prefix {mark a rest : List Char} (ha : Sealed mark a)
    (hb : Sealed mark (a ++ rest)) : rest = [] := by
  obtain ⟨stem, rfl⟩ := ha.1
  exact hb.2 stem rest rfl

theorem Sealed.append_inj {mark a b x y : List Char} (ha : Sealed mark a) (hb : Sealed mark b)
    (same : a ++ x = b ++ y) : a = b ∧ x = y := by
  obtain ⟨rest, rfl, rfl⟩ | ⟨rest, rfl, rfl⟩ := List.append_eq_append_iff.1 same
  · simp [ha.eq_of_prefix hb]
  · simp [hb.eq_of_prefix ha]

theorem underscore_append_inj {t u x y : List Char} (ht : '_' ∉ t) (hu : '_' ∉ u)
    (same : t ++ '_' :: x = u ++ '_' :: y) : t = u ∧ x = y := by
  obtain ⟨rest, rfl, split⟩ | ⟨rest, rfl, split⟩ := List.append_eq_append_iff.1 same
  · cases rest with
    | nil => exact ⟨(List.append_nil _).symm, (List.cons.inj split).2⟩
    | cons c rest =>
      obtain rfl := (List.cons.inj split).1
      simp at hu
  · cases rest with
    | nil => exact ⟨List.append_nil _, (List.cons.inj split).2.symm⟩
    | cons c rest =>
      obtain rfl := (List.cons.inj split).1
      simp at ht

theorem idBetween_toList (source target : String) :
    (Edge.idBetween source target).toList =
      "edge_".toList ++ (source.toList ++ '_' :: target.toList) := by
  simp [Edge.idBetween]

theorem idBetween_inj {mark : List Char} {a b c d : String} (ha : Stamped mark a)
    (hc : Stamped mark c) (same : Edge.idBetween a b = Edge.idBetween c d) : a = c ∧ b = d := by
  have lists := congrArg String.toList same
  rw [idBetween_toList, idBetween_toList] at lists
  have ends := List.append_cancel_left lists
  obtain ⟨base, tail, ea, sealedA, ta⟩ := ha
  obtain ⟨base', tail', ec, sealedC, tc⟩ := hc
  rw [ea, ec, List.append_assoc, List.append_assoc] at ends
  obtain ⟨bases, behind⟩ := sealedA.append_inj sealedC ends
  obtain ⟨tails, targets⟩ := underscore_append_inj ta tc behind
  exact ⟨String.toList_inj.1 (by rw [ea, ec, bases, tails]), String.toList_inj.1 targets⟩

theorem freeId_stamped {mark : List Char} (taken : List String) (base : String)
    (closed : Sealed mark base.toList) : Stamped mark (freeId taken base) := by
  obtain ⟨tail, same, clean⟩ := freeId_toList taken base
  exact ⟨base.toList, tail, same, closed, clean⟩

end SourceAtlas
