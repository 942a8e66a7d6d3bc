import Mathlib.Data.List.DropRight
import Mathlib.Data.List.TakeWhile
import SourceAtlas.Proofs.Text.Pieces
import SourceAtlas.Text.Blank
set_option autoImplicit false

/-!
# What a text shows

The ink of a text are its characters that are not blank. Trimming, cutting into lines and joining
them again leave it as it is.
-/

namespace SourceAtlas.Text

def ink (cs : List Char) : List Char :=
  cs.filter fun c => !isBlank c

@[simp] theorem ink_nil : ink [] = [] := rfl

@[simp] theorem ink_append (first second : List Char) :
    ink (first ++ second) = ink first ++ ink second :=
  List.filter_append ..

theorem ink_cons_blank {c : Char} (blank : isBlank c = true) (cs : List Char) :
    ink (c :: cs) = ink cs := by
  simp [ink, blank]

theorem ink_cons_visible {c : Char} (visible : isBlank c = false) (cs : List Char) :
    ink (c :: cs) = c :: ink cs := by
  simp [ink, visible]

theorem ink_cons_congr {first second : List Char} (same : ink first = ink second) (c : Char) :
    ink (c :: first) = ink (c :: second) := by
  simp only [ink, List.filter_cons] at same ⊢
  rw [same]

theorem ink_eq_nil_iff (cs : List Char) : ink cs = [] ↔ ∀ c ∈ cs, isBlank c = true := by
  simp [ink]

theorem ink_of_isBlankLine {cs : List Char} (blank : isBlankLine cs = true) : ink cs = [] :=
  (ink_eq_nil_iff cs).2 (List.all_eq_true.1 blank)

@[simp] theorem ink_reverse (cs : List Char) : ink cs.reverse = (ink cs).reverse :=
  List.filter_reverse

theorem ink_dropWhile (cs : List Char) : ink (cs.dropWhile isBlank) = ink cs := by
  induction cs with
  | nil => rfl
  | cons c cs ih =>
    by_cases blank : isBlank c = true
    · rw [List.dropWhile_cons_of_pos blank, ih, ink_cons_blank blank]
    · rw [List.dropWhile_cons_of_neg blank]

theorem ink_trimEnd (cs : List Char) : ink (trimEnd cs) = ink cs := by
  rw [trimEnd, ink_reverse, ink_dropWhile, ink_reverse, List.reverse_reverse]

theorem ink_trim (cs : List Char) : ink (trim cs) = ink cs := by
  rw [trim, ink_trimEnd, trimStart, ink_dropWhile]

theorem head?_dropWhile_blank {cs : List Char} {c : Char}
    (first : (cs.dropWhile isBlank).head? = some c) : isBlank c = false := by
  have stops := List.head?_dropWhile_not isBlank cs
  rw [first] at stops
  simpa using stops

theorem trimEnd_isPrefix (cs : List Char) : trimEnd cs <+: cs := by
  have ends := List.reverse_prefix.2 (@List.dropWhile_suffix _ cs.reverse isBlank)
  rwa [List.reverse_reverse] at ends

theorem mem_of_mem_trim {cs : List Char} {c : Char} (mem : c ∈ trim cs) : c ∈ cs :=
  (List.dropWhile_sublist isBlank).subset ((trimEnd_isPrefix _).subset mem)

theorem trimEnd_append {cs : List Char} (front : List Char) (visible : ink cs ≠ []) :
    trimEnd (front ++ cs) = front ++ trimEnd cs := by
  have nonempty : cs.reverse.dropWhile isBlank ≠ [] := by
    intro empty
    rw [List.dropWhile_eq_nil_iff] at empty
    exact visible ((ink_eq_nil_iff cs).2 fun c mem => empty c (List.mem_reverse.2 mem))
  rw [trimEnd, List.reverse_append, List.dropWhile_append, if_neg (by simpa using nonempty),
    List.reverse_append, List.reverse_reverse, trimEnd]

theorem trimEnd_append_blanks (front : List Char) {cs : List Char} (blank : ink cs = []) :
    trimEnd (front ++ cs) = trimEnd front := by
  have areBlank : ∀ c ∈ cs.reverse, isBlank c = true := fun c mem =>
    (ink_eq_nil_iff cs).1 blank c (List.mem_reverse.1 mem)
  rw [trimEnd, List.reverse_append, List.dropWhile_append_of_pos areBlank, trimEnd]

@[simp] theorem trimEnd_eq_nil_iff (cs : List Char) : trimEnd cs = [] ↔ ink cs = [] := by
  constructor
  · intro empty
    rw [← ink_trimEnd, empty, ink_nil]
  · exact trimEnd_append_blanks []

theorem trimEnd_cons_congr {first second : List Char} (same : trimEnd first = trimEnd second)
    (c : Char) : trimEnd (c :: first) = trimEnd (c :: second) := by
  have shown : ink first = ink second := by rw [← ink_trimEnd, same, ink_trimEnd]
  by_cases blank : ink first = []
  · have one := trimEnd_append_blanks [c] blank
    have other := trimEnd_append_blanks [c] (shown.symm.trans blank)
    exact one.trans other.symm
  · have one := trimEnd_append [c] blank
    have other := trimEnd_append [c] (fun empty => blank (shown.trans empty))
    exact one.trans ((congrArg ([c] ++ ·) same).trans other.symm)

theorem trimEnd_cons_visible {c : Char} (visible : isBlank c = false) (cs : List Char) :
    trimEnd (c :: cs) = c :: trimEnd cs := by
  by_cases blank : ink cs = []
  · have one := trimEnd_append_blanks [c] blank
    rw [(trimEnd_eq_nil_iff cs).2 blank]
    refine one.trans ?_
    simp [trimEnd, visible]
  · exact trimEnd_append [c] blank

@[simp] theorem trimEnd_trimEnd (cs : List Char) : trimEnd (trimEnd cs) = trimEnd cs :=
  List.rdropWhile_idempotent isBlank cs

theorem trim_eq_trimStart (cs : List Char) : trim cs = trimStart (trimEnd cs) := by
  induction cs with
  | nil => rfl
  | cons c cs ih =>
    rw [trim] at ih ⊢
    cases blank : isBlank c with
    | false => rw [trimStart_visible c cs blank, trimEnd_cons_visible blank, trimStart_visible c _ blank]
    | true =>
      rw [trimStart_blank c cs blank, ih]
      by_cases empty : ink cs = []
      · rw [(trimEnd_eq_nil_iff cs).2 empty, (trimEnd_eq_nil_iff _).2 ((ink_cons_blank blank cs).trans empty)]
      · have ends := trimEnd_append [c] empty
        exact (trimStart_blank c _ blank).symm.trans (congrArg trimStart ends.symm)

theorem isBlankLine_iff (cs : List Char) : isBlankLine cs = true ↔ ink cs = [] := by
  rw [isBlankLine, List.all_eq_true, ink_eq_nil_iff]

@[simp] theorem isBlankLine_trimEnd (cs : List Char) : isBlankLine (trimEnd cs) = isBlankLine cs := by
  rw [Bool.eq_iff_iff, isBlankLine_iff, isBlankLine_iff, ink_trimEnd]

def inkAll (all : List (List Char)) : List Char :=
  ink all.flatten

@[simp] theorem inkAll_nil : inkAll [] = [] := rfl

@[simp] theorem inkAll_cons (cs : List Char) (rest : List (List Char)) :
    inkAll (cs :: rest) = ink cs ++ inkAll rest := by
  simp [inkAll]

@[simp] theorem inkAll_append (first second : List (List Char)) :
    inkAll (first ++ second) = inkAll first ++ inkAll second := by
  simp [inkAll]

theorem inkAll_map_congr {f : List Char → List Char} (all : List (List Char))
    (same : ∀ cs ∈ all, ink (f cs) = ink cs) : inkAll (all.map f) = inkAll all := by
  induction all with
  | nil => rfl
  | cons cs rest ih =>
    rw [List.map_cons, inkAll_cons, inkAll_cons, same cs (List.mem_cons_self ..),
      ih fun other mem => same other (List.mem_cons_of_mem _ mem)]

theorem ink_joined {separator : Char} (blank : isBlank separator = true) (all : List (List Char)) :
    ink (joined separator all) = inkAll all := by
  induction all with
  | nil => rfl
  | cons piece rest ih =>
    cases rest with
    | nil => simp [joined]
    | cons next more => rw [joined, ink_append, ink_cons_blank blank, ih, ← inkAll_cons]

theorem ink_dropReturn (line : List Char) : ink (dropReturn line) = ink line := by
  unfold dropReturn
  split
  · next rest reversed =>
    have whole : line = rest.reverse ++ ['\r'] := by
      rw [← List.reverse_reverse line, reversed, List.reverse_cons]
    rw [whole, ink_append, ink_cons_blank (by decide), ink_nil, List.append_nil]
  · rfl

theorem trimEnd_dropReturn (line : List Char) : trimEnd (dropReturn line) = trimEnd line := by
  unfold dropReturn
  split
  · next rest reversed =>
    have whole : line = rest.reverse ++ ['\r'] := by
      rw [← List.reverse_reverse line, reversed, List.reverse_cons]
    rw [whole, trimEnd_append_blank _ _ (by decide)]
  · rfl

theorem inkAll_lines (cs : List Char) : inkAll (lines cs) = ink cs := by
  have whole := @ink_joined '\n' (by decide) (pieces '\n' cs)
  rw [joined_pieces] at whole
  rw [lines, whole]
  cases cut : (pieces '\n' cs).reverse with
  | nil => exact absurd (List.reverse_eq_nil_iff.1 cut) (pieces_ne_nil '\n' cs)
  | cons last ended =>
    have cut : pieces '\n' cs = ended.reverse ++ [last] := by
      rw [← List.reverse_reverse (pieces '\n' cs), cut, List.reverse_cons]
    have kept := inkAll_map_congr ended.reverse fun line _ => ink_dropReturn line
    rw [List.map_reverse] at kept
    simp only [cut]
    split
    · next blank => simp [kept, blank]
    · simp [kept]

end SourceAtlas.Text
