import Mathlib.Data.List.TakeWhile
import SourceAtlas.Proofs.Text.Ink
set_option autoImplicit false

namespace SourceAtlas.Text

def withReturns (cs : List Char) : List Char :=
  cs.flatMap fun c => if c = '\n' then ['\r', '\n'] else [c]

/-- A text with a carriage return before every line feed, as a string. -/
def returned (text : String) : String :=
  String.ofList (withReturns text.toList)

@[simp] theorem withReturns_nil : withReturns [] = [] := rfl

@[simp] theorem withReturns_feed (cs : List Char) :
    withReturns ('\n' :: cs) = '\r' :: '\n' :: withReturns cs := rfl

theorem withReturns_cons {c : Char} (other : c ≠ '\n') (cs : List Char) :
    withReturns (c :: cs) = c :: withReturns cs := by
  simp [withReturns, other]

@[simp] theorem withReturns_append (first second : List Char) :
    withReturns (first ++ second) = withReturns first ++ withReturns second :=
  List.flatMap_append

@[simp] theorem toList_returned (text : String) :
    (returned text).toList = withReturns text.toList :=
  String.toList_ofList

@[elab_as_elim]
theorem feed_induction {motive : List Char → Prop} (nil : motive [])
    (feed : ∀ cs, motive cs → motive ('\n' :: cs))
    (cons : ∀ c cs, c ≠ '\n' → motive cs → motive (c :: cs)) (cs : List Char) : motive cs := by
  induction cs with
  | nil => exact nil
  | cons c cs ih =>
    by_cases line : c = '\n'
    · exact line ▸ feed cs ih
    · exact cons c cs line ih

theorem mem_withReturns {c : Char} {cs : List Char} (mem : c ∈ cs) : c ∈ withReturns cs := by
  refine List.mem_flatMap.2 ⟨c, mem, ?_⟩
  split
  · next feed => simp [feed]
  · exact List.mem_singleton_self c

theorem withReturns_of_not_mem {cs : List Char} (single : '\n' ∉ cs) : withReturns cs = cs := by
  induction cs with
  | nil => rfl
  | cons c cs ih =>
    obtain ⟨other, rest⟩ := not_or.1 (List.mem_cons.not.1 single)
    rw [withReturns_cons (Ne.symm other), ih rest]

@[simp] theorem withReturns_eq_nil_iff (cs : List Char) : withReturns cs = [] ↔ cs = [] := by
  cases cs with
  | nil => simp
  | cons c cs =>
    by_cases feed : c = '\n'
    · simp [feed]
    · simp [withReturns_cons feed]

theorem ink_withReturns (cs : List Char) : ink (withReturns cs) = ink cs := by
  induction cs using feed_induction with
  | nil => rfl
  | feed cs ih =>
    rwa [withReturns_feed, ink_cons_blank (by decide), ink_cons_blank (by decide),
      ink_cons_blank (by decide)]
  | cons c cs other ih =>
    rw [withReturns_cons other]
    exact ink_cons_congr ih c

def Inline (p : Char → Bool) : Prop :=
  p '\n' = false ∧ p '\r' = false

instance (p : Char → Bool) : Decidable (Inline p) :=
  inferInstanceAs (Decidable (_ ∧ _))

section Inline

variable {p : Char → Bool} (inline : Inline p)

include inline

theorem takeWhile_withReturns (cs : List Char) : (withReturns cs).takeWhile p = cs.takeWhile p := by
  induction cs using feed_induction with
  | nil => rfl
  | feed cs _ => simp [inline.1, inline.2]
  | cons c cs other ih => rw [withReturns_cons other, List.takeWhile_cons, List.takeWhile_cons, ih]

theorem dropWhile_withReturns (cs : List Char) :
    (withReturns cs).dropWhile p = withReturns (cs.dropWhile p) := by
  induction cs using feed_induction with
  | nil => rfl
  | feed cs _ => simp [inline.1, inline.2]
  | cons c cs other ih =>
    rw [withReturns_cons other, List.dropWhile_cons, List.dropWhile_cons, ih]
    split
    · rfl
    · rw [withReturns_cons other]

end Inline

theorem any_takeWhile_withReturns {p q : Char → Bool} (inline : Inline q)
    (passes : p '\n' = true ∧ p '\r' = true) (cs : List Char) :
    ((withReturns cs).takeWhile p).any q = (cs.takeWhile p).any q := by
  induction cs using feed_induction with
  | nil => rfl
  | feed cs ih => simp [passes.1, passes.2, inline.1, inline.2, ih]
  | cons c cs other ih =>
    rw [withReturns_cons other, List.takeWhile_cons, List.takeWhile_cons]
    split
    · rw [List.any_cons, List.any_cons, ih]
    · rfl

def OneLine (cs : List Char) : Prop :=
  '\n' ∉ cs ∧ '\r' ∉ cs

instance (cs : List Char) : Decidable (OneLine cs) :=
  inferInstanceAs (Decidable (_ ∧ _))

theorem oneLine_cons {c : Char} {cs : List Char} :
    OneLine (c :: cs) ↔ (c ≠ '\n' ∧ c ≠ '\r') ∧ OneLine cs := by
  simp only [OneLine, List.mem_cons, not_or, ne_eq, eq_comm (a := c)]
  exact and_and_and_comm

theorem prefix_withReturns_iff {word cs : List Char} (single : OneLine word) :
    word <+: withReturns cs ↔ word <+: cs := by
  induction word generalizing cs with
  | nil => simp
  | cons c word ih =>
    obtain ⟨⟨feed, ret⟩, rest⟩ := oneLine_cons.1 single
    cases cs with
    | nil => rfl
    | cons d cs =>
      by_cases line : d = '\n'
      · subst line
        rw [withReturns_feed, List.cons_prefix_cons, List.cons_prefix_cons]
        exact ⟨fun never => absurd never.1 ret, fun never => absurd never.1 feed⟩
      · rw [withReturns_cons line, List.cons_prefix_cons, List.cons_prefix_cons, ih rest]

theorem suffix_withReturns_iff {word cs : List Char} (single : OneLine word) :
    word <:+ withReturns cs ↔ word <:+ cs := by
  induction cs using feed_induction with
  | nil => rfl
  | feed cs ih =>
    rw [withReturns_feed, List.suffix_cons_iff, List.suffix_cons_iff, List.suffix_cons_iff, ih]
    have ret : word ≠ '\r' :: '\n' :: withReturns cs := by
      rintro rfl
      exact single.2 (List.mem_cons_self ..)
    have line {rest : List Char} : word ≠ '\n' :: rest := by
      rintro rfl
      exact single.1 (List.mem_cons_self ..)
    rw [or_iff_right ret, or_iff_right line, or_iff_right line]
  | cons c cs other ih =>
    rw [withReturns_cons other, List.suffix_cons_iff, List.suffix_cons_iff, ih]
    refine or_congr_left ⟨fun whole => ?_, fun whole => ?_⟩
    · have single := single.1
      rw [whole, List.mem_cons, not_or] at single
      have plain : '\n' ∉ cs := fun mem => single.2 (mem_withReturns mem)
      rw [whole, withReturns_of_not_mem plain]
    · have single := single.1
      rw [whole, List.mem_cons, not_or] at single
      rw [whole, withReturns_of_not_mem single.2]

theorem drop_withReturns {n : Nat} {cs : List Char} (single : '\n' ∉ cs.take n) :
    (withReturns cs).drop n = withReturns (cs.drop n) := by
  have whole := congrArg withReturns (List.take_append_drop n cs)
  rw [withReturns_append, withReturns_of_not_mem single] at whole
  by_cases short : n ≤ cs.length
  · rw [← whole, List.drop_left' (List.length_take_of_le short)]
  · have whole : cs.take n = cs := List.take_of_length_le (by omega)
    rw [whole] at single
    rw [withReturns_of_not_mem single, List.drop_of_length_le (by omega)]
    rfl

theorem take_withReturns {n : Nat} {cs : List Char} (single : '\n' ∉ cs.take n) :
    (withReturns cs).take n = cs.take n := by
  have whole := congrArg withReturns (List.take_append_drop n cs)
  rw [withReturns_append, withReturns_of_not_mem single] at whole
  by_cases short : n ≤ cs.length
  · rw [← whole, List.take_left' (List.length_take_of_le short)]
  · have whole : cs.take n = cs := List.take_of_length_le (by omega)
    rw [whole] at single
    rw [withReturns_of_not_mem single]

theorem mem_take_withReturns {n : Nat} {cs : List Char} (ends : '\n' ∈ cs.take n) :
    '\r' ∈ (withReturns cs).take n := by
  induction cs generalizing n with
  | nil => simp at ends
  | cons c cs ih =>
    cases n with
    | zero => simp at ends
    | succ n =>
      by_cases feed : c = '\n'
      · subst feed
        exact List.mem_cons_self ..
      · rw [List.take_succ_cons, List.mem_cons, or_iff_right (Ne.symm feed)] at ends
        rw [withReturns_cons feed, List.take_succ_cons]
        exact List.mem_cons_of_mem _ (ih ends)

end SourceAtlas.Text
