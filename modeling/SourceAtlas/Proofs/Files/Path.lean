import Mathlib.Data.List.DropRight
import SourceAtlas.Files.Path
import SourceAtlas.Proofs.Text.Pieces
set_option autoImplicit false

namespace SourceAtlas.Path

def Below (base path : String) : Prop :=
  isAbsolute path = isAbsolute base ∧ ∃ rest, rest ≠ [] ∧ names path = names base ++ rest

def Child (base path last : String) : Prop :=
  isAbsolute path = isAbsolute base ∧ last ≠ "." ∧
    ∃ dots : List String, (∀ dot ∈ dots, dot = ".") ∧ names path = names base ++ dots ++ [last]

def Tidy (path : String) : Prop :=
  settle (pieces path) = pieces path

theorem Child.below {base path last : String} (child : Child base path last) : Below base path := by
  obtain ⟨anchored, -, dots, -, same⟩ := child
  exact ⟨anchored, dots ++ [last], by simp, by rw [same, List.append_assoc]⟩

theorem Below.trans {a b c : String} (h₁ : Below a b) (h₂ : Below b c) : Below a c := by
  obtain ⟨anchored₁, rest₁, some₁, same₁⟩ := h₁
  obtain ⟨anchored₂, rest₂, some₂, same₂⟩ := h₂
  refine ⟨anchored₂.trans anchored₁, rest₁ ++ rest₂, by simp [some₁], ?_⟩
  rw [same₂, same₁, List.append_assoc]

theorem pieces_ne_nil (path : String) : pieces path ≠ [] := by
  simpa [pieces, Text.splitAt] using Text.pieces_ne_nil '/' path.toList

theorem slash_not_mem (path : String) : ∀ piece ∈ pieces path, '/' ∉ piece.toList := by
  intro piece mem
  obtain ⟨cs, cut, rfl⟩ := List.mem_map.1 mem
  simpa using Text.separator_not_mem_pieces '/' path.toList cs cut

theorem pieces_intercalate (all : List String) (nonempty : all ≠ [])
    (clean : ∀ piece ∈ all, '/' ∉ piece.toList) : pieces ("/".intercalate all) = all := by
  have cut : Text.pieces '/' (Text.joined '/' (all.map String.toList)) = all.map String.toList := by
    refine Text.pieces_joined '/' _ (by simpa using nonempty) ?_
    intro cs mem
    obtain ⟨piece, inAll, rfl⟩ := List.mem_map.1 mem
    exact clean piece inAll
  rw [Text.joined_eq_intercalate] at cut
  have joined : ("/".intercalate all).toList = ['/'].intercalate (all.map String.toList) :=
    String.toList_intercalate
  rw [pieces, Text.splitAt, joined, cut, List.map_map]
  simp [Function.comp_def]

theorem suffix_intercalate (front : List String) (last : String) :
    last.toList <:+ ("/".intercalate (front ++ [last])).toList := by
  cases front with
  | nil => simp
  | cons first more =>
    rw [String.intercalate_append_of_ne_nil (List.cons_ne_nil _ _) (List.cons_ne_nil _ _),
      String.intercalate_singleton, String.toList_append]
    exact List.suffix_append _ _

theorem isAbsolute_eq (path first : String) (rest : List String)
    (cut : pieces path = first :: rest) : isAbsolute path = (first == "" && !rest.isEmpty) := by
  rw [pieces, Text.splitAt] at cut
  rw [isAbsolute]
  cases spelled : path.toList with
  | nil =>
    rw [spelled] at cut
    obtain ⟨rfl, rfl⟩ := List.cons.inj cut
    rfl
  | cons c cs =>
    rw [spelled, Text.pieces] at cut
    split at cut
    · next empty => exact absurd empty (Text.pieces_ne_nil '/' cs)
    · next head tail split =>
      split at cut
      · next slash =>
        obtain ⟨rfl, rfl⟩ := List.cons.inj cut
        simp [slash]
      · next other =>
        obtain ⟨rfl, rfl⟩ := List.cons.inj cut
        have named : String.ofList (c :: head) ≠ "" := by
          intro empty
          have length := congrArg String.toList empty
          simp at length
        rw [beq_eq_false_iff_ne.2 named]
        simp [other]

theorem pieces_ofPieces (all : List String) (nonempty : all ≠ []) (plain : all ≠ [""])
    (clean : ∀ piece ∈ all, '/' ∉ piece.toList) : pieces (ofPieces all) = all := by
  rw [ofPieces.eq_2 all plain]
  exact pieces_intercalate all nonempty clean

theorem names_ofPieces (all : List String) (nonempty : all ≠ [])
    (clean : ∀ piece ∈ all, '/' ∉ piece.toList) :
    names (ofPieces all) = all.filter fun name => name != "" := by
  by_cases plain : all = [""]
  · subst plain
    decide
  · rw [names, pieces_ofPieces all nonempty plain clean]

theorem isAbsolute_ofPieces (first : String) (rest : List String)
    (clean : ∀ piece ∈ first :: rest, '/' ∉ piece.toList) (visible : ofPieces (first :: rest) ≠ "") :
    isAbsolute (ofPieces (first :: rest)) = (first == "") := by
  by_cases plain : first :: rest = [""]
  · obtain ⟨rfl, rfl⟩ := List.cons.inj plain
    decide
  · rw [isAbsolute_eq _ first rest (pieces_ofPieces _ (List.cons_ne_nil _ _) plain clean)]
    cases rest with
    | nil =>
      have named : first ≠ "" := fun empty => plain (by rw [empty])
      simp [named]
    | cons next more => simp

theorem parent?_of_idle {path first : String} {rest : List String}
    (cut : pieces path = first :: rest) (idle : rest.rdropWhile isIdle = []) :
    parent? path = if first = "" then none else some "" := by
  have trimmed : settle (first :: rest) = first :: rest.rdropWhile isIdle := rfl
  rw [parent?, cut, trimmed, idle]
  by_cases blank : first = ""
  · simp [blank]
  · simp [blank]

theorem parent?_of_concat {path first last : String} {rest inner : List String}
    (cut : pieces path = first :: rest) (ends : rest.rdropWhile isIdle = inner ++ [last]) :
    parent? path = some (ofPieces (first :: inner.rdropWhile isIdle)) := by
  have trimmed : settle (first :: rest) = first :: rest.rdropWhile isIdle := rfl
  have inside : settle ((first :: (inner ++ [last])).dropLast) =
      first :: inner.rdropWhile isIdle := by
    rw [← List.cons_append, List.dropLast_concat]
    rfl
  rw [parent?, cut, trimmed, ends]
  split
  · next never => cases never
  · next never => simp at never
  · next never => simp at never
  · rw [inside]

/-- A parent has pieces of its path up to a piece that is not idle, and no idle ones at its end. -/
theorem parent?_split {path base : String} (up : parent? path = some base) (named : base ≠ "") :
    ∃ first kept idle last tail, pieces path = first :: (kept ++ idle ++ last :: tail) ∧
      settle (pieces path) = first :: (kept ++ idle ++ [last]) ∧
      (∀ piece ∈ first :: kept, '/' ∉ piece.toList) ∧ base = ofPieces (first :: kept) ∧
      kept.rdropWhile isIdle = kept ∧ (∀ piece ∈ idle ++ tail, isIdle piece = true) ∧
      isIdle last = false := by
  cases cut : pieces path with
  | nil => exact absurd cut (pieces_ne_nil path)
  | cons first rest =>
    have trimmed : settle (first :: rest) = first :: rest.rdropWhile isIdle := rfl
    rcases List.eq_nil_or_concat' (rest.rdropWhile isIdle) with idle | ⟨inner, last, ends⟩
    · rw [parent?_of_idle cut idle] at up
      split at up
      · cases up
      · exact absurd (Option.some.inj up).symm named
    · rw [parent?_of_concat cut ends] at up
      have whole : rest = inner ++ [last] ++ rest.rtakeWhile isIdle := by
        rw [← ends, List.rdropWhile_append_rtakeWhile]
      have ended : isIdle last = false := by
        have kept := List.rdropWhile_last_not isIdle rest (by simp [ends])
        simpa [ends] using kept
      refine ⟨first, inner.rdropWhile isIdle, inner.rtakeWhile isIdle, last,
        rest.rtakeWhile isIdle, ?_, ?_, ?_, (Option.some.inj up).symm,
        List.rdropWhile_idempotent isIdle inner, fun piece mem => ?_, ended⟩
      · rw [List.rdropWhile_append_rtakeWhile]
        simpa using whole
      · rw [trimmed, ends, List.rdropWhile_append_rtakeWhile]
      · intro piece mem
        refine slash_not_mem path piece ?_
        rw [cut, whole]
        rcases List.mem_cons.1 mem with rfl | mem
        · exact List.mem_cons_self ..
        · have inInner := (List.rdropWhile_prefix isIdle inner).subset mem
          simp [inInner]
      · rcases List.mem_append.1 mem with inIdle | inTail
        · exact List.mem_rtakeWhile_imp inIdle
        · exact List.mem_rtakeWhile_imp inTail

theorem filter_idle (idle : List String) (areIdle : ∀ piece ∈ idle, isIdle piece = true) :
    ∀ dot ∈ idle.filter fun name => name != "", dot = "." := by
  intro dot mem
  obtain ⟨inIdle, visible⟩ := List.mem_filter.1 mem
  have named : dot ≠ "" := by simpa using visible
  simpa [isIdle, named] using areIdle dot inIdle

theorem parent?_names {path base : String} (up : parent? path = some base) (named : base ≠ "") :
    isAbsolute path = isAbsolute base ∧ ∃ dots last tail, (∀ dot ∈ dots ++ tail, dot = ".") ∧
      last ≠ "." ∧ names path = names base ++ dots ++ last :: tail ∧
      (Tidy path → tail = []) := by
  obtain ⟨first, kept, idle, last, tail, cut, trimmed, clean, rfl, -, idles, ended⟩ :=
    parent?_split up named
  have proper : last ≠ "" ∧ last ≠ "." := by simpa [isIdle] using ended
  refine ⟨?_, idle.filter fun name => name != "", last, tail.filter fun name => name != "",
    ?_, proper.2, ?_, ?_⟩
  · rw [isAbsolute_ofPieces first kept clean named, isAbsolute_eq path first _ cut]
    simp
  · rw [← List.filter_append]
    exact filter_idle _ idles
  · rw [names_ofPieces _ (List.cons_ne_nil _ _) clean, names, cut]
    simp [List.filter_cons, proper.1]
    split <;> simp
  · intro tidy
    rw [Tidy, trimmed, cut] at tidy
    have empty : tail = [] := by simpa using tidy
    rw [empty]
    rfl

theorem parent?_below {path base : String} (up : parent? path = some base) (named : base ≠ "") :
    Below base path := by
  obtain ⟨anchored, dots, last, tail, -, -, same, -⟩ := parent?_names up named
  exact ⟨anchored, dots ++ last :: tail, by simp, by rw [same, List.append_assoc]⟩

theorem parent?_child {path base : String} (tidy : Tidy path) (up : parent? path = some base)
    (named : base ≠ "") : ∃ last, Child base path last := by
  obtain ⟨anchored, dots, last, tail, idle, proper, same, single⟩ := parent?_names up named
  obtain rfl := single tidy
  exact ⟨last, anchored, proper, dots, by simpa using idle, same⟩

theorem parent?_tidy {path base : String} (up : parent? path = some base) (named : base ≠ "") :
    base = "/" ∨ Tidy base ∧ parent? base ≠ none := by
  obtain ⟨first, kept, idle, last, tail, -, -, clean, rfl, settled, -, -⟩ := parent?_split up named
  by_cases plain : first :: kept = [""]
  · exact .inl (by rw [plain, ofPieces])
  have same : settle (first :: kept) = first :: kept := congrArg (first :: ·) settled
  have whole : pieces (ofPieces (first :: kept)) = first :: kept :=
    pieces_ofPieces _ (List.cons_ne_nil _ _) plain clean
  refine .inr ⟨by rw [Tidy, whole, same], ?_⟩
  rw [parent?, whole, same]
  split
  · next never => cases never
  · next root => exact absurd root plain
  · simp
  · simp

/-- Where a parent is not named or there is none, all pieces behind the first one are idle. -/
theorem parent?_single {path : String} (up : parent? path = none ∨ parent? path = some "") :
    ∃ first rest, pieces path = first :: rest ∧ (∀ piece ∈ rest, isIdle piece = true) ∧
      (parent? path = none ↔ first = "") := by
  cases cut : pieces path with
  | nil => exact absurd cut (pieces_ne_nil path)
  | cons first rest =>
    rcases List.eq_nil_or_concat' (rest.rdropWhile isIdle) with idle | ⟨inner, last, ends⟩
    · exact ⟨first, rest, rfl, by simpa using idle, by simp [parent?_of_idle cut idle]⟩
    · rw [parent?_of_concat cut ends] at up
      have blank : ofPieces (first :: inner.rdropWhile isIdle) = "" := by simpa using up
      -- A text of pieces that is empty has one piece, which would be the root then.
      have clean : ∀ piece ∈ first :: inner.rdropWhile isIdle, '/' ∉ piece.toList := by
        intro piece mem
        refine slash_not_mem path piece ?_
        rw [cut]
        rcases List.mem_cons.1 mem with rfl | mem
        · exact List.mem_cons_self ..
        · have inRest : piece ∈ rest.rdropWhile isIdle := by
            rw [ends]
            exact List.mem_append_left _ ((List.rdropWhile_prefix isIdle inner).subset mem)
          exact List.mem_cons_of_mem _ ((List.rdropWhile_prefix isIdle rest).subset inRest)
      by_cases plain : first :: inner.rdropWhile isIdle = [""]
      · rw [plain] at blank
        exact absurd blank (by decide)
      · have whole := pieces_ofPieces _ (List.cons_ne_nil _ _) plain clean
        rw [blank] at whole
        exact absurd (whole.symm.trans (by decide)) plain

theorem pieces_append (base path : String) :
    pieces (base ++ "/" ++ path) = pieces base ++ pieces path := by
  have slash : ("/" : String).toList = ['/'] := rfl
  rw [pieces, Text.splitAt, String.toList_append, String.toList_append, slash, List.append_assoc,
    List.singleton_append, Text.pieces_append, List.map_append]
  rfl

theorem names_append (base path : String) :
    names (base ++ "/" ++ path) = names base ++ names path := by
  rw [names, pieces_append, List.filter_append]
  rfl

theorem names_join {base path : String} (relative : isAbsolute path = false) :
    names (join base path) = names base ++ names path := by
  rw [join, relative, Bool.false_or]
  split
  · next blank =>
    have empty : base = "" := by simpa using blank
    have nameless : names "" = [] := by decide
    rw [empty, nameless, List.nil_append]
  split
  · next ends =>
    obtain ⟨front, same⟩ := List.getLast?_eq_some_iff.1 (beq_iff_eq.1 ends)
    have text : base = String.ofList front ++ "/" := by
      rw [← String.toList_inj, same]
      simp
    have short : names base = names (String.ofList front) := by
      have nameless : names "" = [] := by decide
      have whole := names_append (String.ofList front) ""
      rw [nameless, List.append_nil] at whole
      simpa [text] using whole
    rw [short, ← names_append, ← text]
  · exact names_append base path

theorem isAbsolute_join {base path : String} (relative : isAbsolute path = false) :
    isAbsolute (join base path) = isAbsolute base := by
  rw [join, relative, Bool.false_or]
  split
  · next blank =>
    have empty : base = "" := by simpa using blank
    rw [empty, relative]
    decide
  next visible =>
  have nonempty : base.toList ≠ [] := by
    intro empty
    exact visible (by simp [String.toList_eq_nil_iff.1 empty])
  have head (more : List Char) : (base.toList ++ more).head? = base.toList.head? :=
    List.head?_append_of_ne_nil _ nonempty
  split
  · simp [isAbsolute, head]
  · simp [isAbsolute, head]

theorem up_mem_join {base path : String} (below : staysBelow path = true)
    (mem : ".." ∈ names (join base path)) : (pieces base).contains ".." = true := by
  have level : ".." ∉ pieces path := by simpa using ((Bool.and_eq_true _ _).mp below).2
  have inPieces : ".." ∈ pieces (join base path) := (List.mem_filter.1 mem).1
  rw [join] at inPieces
  split at inPieces
  · exact absurd inPieces level
  split at inPieces
  · next ends =>
    obtain ⟨front, same⟩ := List.getLast?_eq_some_iff.1 (beq_iff_eq.1 ends)
    have text : base = String.ofList front ++ "/" := by
      rw [← String.toList_inj, same]
      simp
    rw [text, pieces_append] at inPieces
    have cut : pieces base = pieces (String.ofList front) ++ pieces "" := by
      rw [← pieces_append, ← text]
      simp
    rcases List.mem_append.1 inPieces with inFront | inPath
    · simp [cut, inFront]
    · exact absurd inPath level
  · rw [pieces_append] at inPieces
    rcases List.mem_append.1 inPieces with inBase | inPath
    · simpa using inBase
    · exact absurd inPath level

end SourceAtlas.Path
