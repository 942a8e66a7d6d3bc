import SourceAtlas.Proofs.Files.Again
import SourceAtlas.Proofs.Files.Descent
import SourceAtlas.Proofs.Files.Direct
set_option autoImplicit false

namespace SourceAtlas.FileTree

/-- What a lookup comes to in a tree if it finds an entry in a larger one: that entry, a vacant spot,
or nothing, if the directory of the entry is not there either or dots stand behind its name. -/
inductive Shade (tree : FileTree) (goal : Location) (entry : Entry) (names : List String) :
    Except FileError Spot → Prop
  | there (stands : tree.entry? goal = some entry) : Shade tree goal entry names
      (.ok (.taken goal entry))
  | free (absent : tree.entry? goal = none) : Shade tree goal entry names (.ok (.vacant goal))
  | away (absent : tree.entry? goal = none)
    (far : tree.entry? goal.dropLast = some .directory → names.getLast? = some ".") :
    Shade tree goal entry names (.error .notFound)

variable {before whole : FileTree}

theorem Shade.cons {goal : Location} {entry : Entry} {name : String} {names : List String}
    {found : Except FileError Spot} (shade : before.Shade goal entry names found) :
    before.Shade goal entry (name :: names) found := by
  cases shade with
  | there stands => exact .there stands
  | free absent => exact .free absent
  | away absent far =>
    refine .away absent fun inside => ?_
    rw [List.getLast?_cons, far inside]
    rfl

theorem shade_behind {location : Location} {entry : Entry} {name : String} {names : List String}
    (absent : before.entry? location = none) (onward : names ≠ []) :
    before.Shade (location ++ names.filter fun name => name != ".") entry (name :: names)
      (.error .notFound) := by
  have inner {rest : List String} {held : Entry}
      (found : before.entry? (location ++ rest) = some held) : False := by
    by_cases last : rest = []
    · rw [last, List.append_nil, absent] at found
      cases found
    · rw [entry?_above found last] at absent
      cases absent
  refine .away ?_ fun inside => ?_
  · by_contra held
    obtain ⟨held, found⟩ := Option.ne_none_iff_exists'.1 held
    exact inner found
  · by_cases dots : (names.filter fun name => name != ".") = []
    · have dotted : ∀ name ∈ names, name = "." := by simpa using dots
      rw [List.getLast?_cons, List.getLast?_eq_getLast_of_ne_nil onward, Option.getD_some,
        dotted _ (List.getLast_mem onward)]
    · rw [List.dropLast_append_of_ne_nil dots] at inside
      exact (inner inside).elim

theorem stride_shade (grown : before ≤ whole) (plain : whole.LinkFree) {purpose : Purpose}
    {jump jump' : Bool → Location → List String → Except FileError Spot} {slash : Bool}
    {location goal : Location} {entry : Entry} {names : List String} (level : ".." ∉ names)
    (start : before.entry? location = some .directory)
    (found : whole.stride purpose jump slash location names = .ok (.taken goal entry)) :
    before.Shade goal entry names (before.stride purpose jump' slash location names) := by
  induction names using names_induction generalizing location with
  | nil =>
    cases found
    exact .there start
  | dot names ih => exact (ih (List.not_mem_of_not_mem_cons level) start found).cons
  | up names ih => exact absurd (List.mem_cons_self ..) level
  | name name names dot up ih =>
    have rest : ".." ∉ names := List.not_mem_of_not_mem_cons level
    have here := (stride_led plain purpose jump slash location _ _ found).1
    rw [foldl_advance_of_level level] at here
    obtain rfl : goal = location ++ [name] ++ names.filter fun name => name != "." := by
      simpa [Spot.location, dot] using here
    obtain ⟨short, open', step⟩ := stride_name_ok dot up found
    rw [stride_name _ _ _ _ _ _ dot up, if_neg open', if_neg short]
    cases now : before.entry? (location ++ [name]) with
    | none =>
      by_cases last : names = []
      · subst last
        simp only [List.filter_nil, List.append_nil, if_true]
        exact .free now
      · simp only [if_neg last]
        exact shade_behind now last
    | some kind =>
      have held := grown.2 _ _ now
      cases step with
      | directory here behind =>
        obtain rfl := Option.some.inj (held.symm.trans here)
        exact (ih rest now behind).cons
      | link here | jump here => exact absurd here (plain.entry? _ _)
      | last noDirectory noLink last arrives =>
        subst last
        cases kind with
        | directory => exact absurd held noDirectory
        | link target => exact absurd held (noLink target)
        | file contents =>
          simp only [held, arrive, if_true, List.filter_nil, List.append_nil] at arrives ⊢
          split at arrives
          · cases arrives
          next strict =>
          obtain ⟨-, rfl⟩ := Spot.taken.inj (Except.ok.inj arrives)
          rw [if_neg strict]
          exact .there now

theorem locate_shade (grown : before ≤ whole) (plain : whole.LinkFree) {purpose : Purpose}
    {path : String} {goal : Location} {entry : Entry} (level : ".." ∉ Path.names path)
    (found : whole.locate purpose path = .ok (.taken goal entry)) :
    before.Shade goal entry (Path.names path) (before.locate purpose path) := by
  have fits := fits_of_locate found
  have same : whole.origin path = before.origin path := by rw [origin, origin, grown.1]
  rw [locate_of_fits _ _ fits, same] at found
  rw [locate_of_fits _ _ fits]
  exact stride_shade grown plain level (entry?_origin before path) found

theorem view?_within (grown : before ≤ whole) (plain : whole.LinkFree) {path : String}
    {goal : Location} {entry : Entry} (level : ".." ∉ Path.names path)
    (seen : whole.view? path = some (goal, entry)) :
    before.view? path = (before.entry? goal).map fun held => (goal, held) := by
  have shade := locate_shade grown plain level ((view?_eq_some_iff whole path _ _).1 seen)
  rw [view?]
  generalize before.locate .view path = found at shade ⊢
  cases shade with
  | there stands => rw [stands]; rfl
  | free absent => rw [absent]; rfl
  | away absent far => rw [absent]; rfl

theorem add_within (grown : before ≤ whole) {location : Location} {entry : Entry}
    (stands : whole.entry? location = some entry) : before.add location entry ≤ whole := by
  by_cases can : before.CanAdd location entry
  · refine ⟨grown.1.trans (add_of_canAdd can).2.symm, fun other held found => ?_⟩
    rw [entry?_add can] at found
    split at found
    · next here =>
      subst here
      exact stands.trans found
    · exact grown.2 _ _ found
  · rw [add_of_not_canAdd can]
    exact grown

theorem writeText_within (grown : before ≤ whole) (plain : whole.LinkFree) {path text : String}
    {goal : Location} (level : ".." ∉ Path.names path)
    (seen : whole.view? path = some (goal, .file text.toUTF8)) (absent : before.entry? goal = none)
    (inside : before.entry? goal.dropLast = some .directory) :
    ∃ after, before.writeText path text = .ok after ∧ after ≤ whole := by
  have found := locate_write_of_view ((view?_eq_some_iff whole path _ _).1 seen)
  have stands : whole.entry? goal = some (.file text.toUTF8) := locate_sound whole .write path _ found
  obtain ⟨init, last, names, dot, -⟩ := (locate_led plain found).2 (by simp)
  have shade := locate_shade grown plain level found
  rw [writeText, writeBytes]
  generalize before.locate .write path = led at shade ⊢
  cases shade with
  | there held =>
    rw [absent] at held
    cases held
  | free _ => exact ⟨_, rfl, add_within grown stands⟩
  | away _ far =>
    have dotted := far inside
    rw [names, List.getLast?_concat] at dotted
    exact absurd (Option.some.inj dotted) dot

/-- A directory that the larger tree has is there, or it can be made unless its own directory is
missing. -/
theorem makeDirectory_within (grown : before ≤ whole) (plain : whole.LinkFree) {path : String}
    (level : ".." ∉ Path.names path) (directory : whole.isDirectory path = true) :
    before.isDirectory path = true ∨ before.Missing path ∨
      ∃ after, before.makeDirectory path = .ok after ∧ after ≤ whole := by
  obtain ⟨goal, seen⟩ := (isDirectory_iff whole path).1 directory
  have viewed := (view?_eq_some_iff whole path _ _).1 seen
  have stands : whole.entry? goal = some .directory := locate_sound whole .view path _ viewed
  obtain ⟨location, entry, found⟩ := locate_make_of_isDirectory directory
  -- Whatever a path is looked up for, it leads to one location.
  obtain rfl : location = goal :=
    (locate_destination plain found).trans (locate_destination plain viewed).symm
  obtain rfl : entry = .directory :=
    Option.some.inj ((locate_sound whole .make path _ found).symm.trans stands)
  have shade := locate_shade grown plain level found
  cases led : before.locate .make path with
  | error e =>
    rw [led] at shade
    cases shade with
    | away _ _ => exact .inr (.inl (makeDirectory_of_error led))
  | ok spot =>
    rw [led] at shade
    cases shade with
    | there held =>
      refine .inl ((isDirectory_iff before path).2 ⟨location, ?_⟩)
      rw [view?_within grown plain level seen, held]
      rfl
    | free _ => exact .inr (.inr ⟨_, makeDirectory_of_vacant led, add_within grown stands⟩)

theorem makeEach_within (grown : before ≤ whole) (plain : whole.LinkFree) {base : String}
    {paths : List String} (row : Path.Row (paths.reverse ++ [base]))
    (inside : before.isDirectory base = true)
    (stand : ∀ p ∈ paths, ".." ∉ Path.names p ∧ whole.isDirectory p = true) :
    ∃ after, before.makeEach paths = (none, after) ∧ after ≤ whole := by
  induction paths generalizing before base with
  | nil => exact ⟨before, rfl, grown⟩
  | cons path paths ih =>
    obtain ⟨level, directory⟩ := stand path (List.mem_cons_self ..)
    have rest : ∀ p ∈ paths, ".." ∉ Path.names p ∧ whole.isDirectory p = true := fun p mem =>
      stand p (List.mem_cons_of_mem _ mem)
    rw [List.reverse_cons, List.append_assoc, List.singleton_append] at row
    obtain ⟨inner, outer⟩ := row.split
    rcases makeDirectory_within grown plain level directory with there | missing | ⟨next, made, le⟩
    · obtain ⟨location, entry, found⟩ := locate_make_of_isDirectory there
      rw [makeEach, makeDirectory_of_taken found]
      simp only [there, if_true]
      exact ih grown inner there rest
    · -- What it would lie in is there.
      obtain ⟨last, child⟩ := outer.child
      obtain ⟨goal, seen⟩ := (isDirectory_iff whole path).1 directory
      have fits := fits_of_locate ((view?_eq_some_iff whole path _ _).1 seen)
      exact absurd missing (not_missing_child child fits inside)
    · rw [makeEach, made]
      exact ih le inner (isDirectory_makeDirectory made) rest

theorem makeLineage_within (grown : before ≤ whole) (plain : whole.LinkFree)
    {missing paths : List String} (row : Path.Row (missing.reverse ++ paths))
    (stand : ∀ p ∈ missing.reverse ++ paths, ".." ∉ Path.names p ∧ whole.isDirectory p = true)
    (bottom : ∀ p, (missing.reverse ++ paths).getLast? = some p → ¬ before.Missing p)
    (absent : ∀ p ∈ missing, before.Missing p) :
    ∃ after, before.makeLineage missing paths = (none, after) ∧ after ≤ whole := by
  induction paths generalizing missing with
  | nil =>
    cases missing with
    | nil => exact ⟨before, rfl, grown⟩
    | cons path missing =>
      have last := absent path (List.mem_cons_self ..)
      exact absurd last (bottom path (by simp))
  | cons path paths ih =>
    obtain ⟨level, directory⟩ := stand path (by simp)
    have inner : ∀ p ∈ missing, ".." ∉ Path.names p ∧ whole.isDirectory p = true := fun p mem =>
      stand p (by simp [mem])
    have upper := (row.split).1
    rcases makeDirectory_within grown plain level directory with there | lacks | ⟨next, made, le⟩
    · obtain ⟨location, entry, found⟩ := locate_make_of_isDirectory there
      rw [makeLineage, makeDirectory_of_taken found]
      simp only [there, if_true]
      exact makeEach_within grown plain upper there inner
    · have turned : (path :: missing).reverse ++ paths = missing.reverse ++ path :: paths := by simp
      have failed : before.makeDirectory path = .error .notFound := lacks
      rw [makeLineage, failed]
      simp only
      refine ih (turned ▸ row) (turned ▸ stand) (turned ▸ bottom) fun p mem => ?_
      rcases List.mem_cons.1 mem with rfl | mem
      · exact lacks
      · exact absent p mem
    · rw [makeLineage, made]
      exact makeEach_within le plain upper (isDirectory_makeDirectory made) inner

theorem length_parent {path parent : String} (up : Path.parent? path = some parent)
    (named : parent ≠ "") : parent.length < path.length := by
  obtain ⟨rest, same⟩ := Path.parent?_append up named
  obtain ⟨-, behind, nonempty, names⟩ := Path.parent?_below up named
  have visible : rest ≠ "" := by
    rintro rfl
    rw [String.append_empty] at same
    rw [same] at names
    exact nonempty (List.self_eq_append_right.1 names)
  have length : 0 < rest.length := by
    rw [← String.length_toList]
    exact List.length_pos_iff.2 fun blank => visible (String.toList_eq_nil_iff.1 blank)
  rw [same, String.length_append]
  omega

theorem lineage_last (fuel : Nat) (path : String) (enough : path.length < fuel)
    (tidy : path ≠ "" → path = "/" ∨ Path.Tidy path) {last : String}
    (ends : (lineage fuel path).getLast? = some last) :
    Path.Tidy last ∧ (Path.parent? last = some "" ∨ Path.parent? last = some "/") := by
  induction fuel generalizing path with
  | zero => simp [lineage] at ends
  | succ fuel ih =>
    rw [lineage_succ] at ends
    split at ends
    · cases ends
    next visible =>
    split at ends
    · cases ends
    next parent up =>
    have whole : Path.Tidy path := by
      rcases tidy visible with rfl | whole
      · cases up
      · exact whole
    by_cases named : parent = ""
    · subst named
      have bare : lineage fuel "" = [] := by cases fuel <;> rfl
      rw [bare] at ends
      obtain rfl := Option.some.inj ends
      exact ⟨whole, .inl up⟩
    have short := length_parent up named
    obtain ⟨fuel, rfl⟩ : ∃ more, fuel = more + 1 := ⟨fuel - 1, by omega⟩
    rcases Path.parent?_tidy up named with rfl | ⟨tidy', further⟩
    · have bare : lineage (fuel + 1) "/" = [] := rfl
      rw [bare] at ends
      obtain rfl := Option.some.inj ends
      exact ⟨whole, .inr up⟩
    · obtain ⟨next, up'⟩ := Option.ne_none_iff_exists'.1 further
      have row : lineage (fuel + 1) parent = parent :: lineage fuel next := by
        rw [lineage_succ, if_neg named, up']
      rw [row, List.getLast?_cons_cons, ← row] at ends
      exact ih parent (by omega) (fun _ => .inr tidy') ends

theorem not_missing_of_single {tree : FileTree} {path : String} (tidy : Path.Tidy path)
    (fits : Fits path) (up : Path.parent? path = some "" ∨ Path.parent? path = some "/") :
    ¬ tree.Missing path := by
  intro missing
  rcases up with single | top
  · obtain ⟨first, rest, cut, idle, root⟩ := Path.parent?_single (.inr single)
    have visible : first ≠ "" := fun blank => by simp [root.2 blank] at single
    have alone : rest = [] := by
      have whole : Path.settle (first :: rest) = first :: rest := cut ▸ tidy
      have bare : rest.rdropWhile Path.isIdle = [] := by simpa using idle
      exact (List.cons.inj whole).2.symm.trans bare
    have names : Path.names path = [first] := by simp [Path.names, cut, alone, visible]
    rw [missing_iff_locate, locate_of_fits tree .make fits, names] at missing
    exact walk_make_single _ _ _ _ _ missing
  · obtain ⟨last, child⟩ := Path.parent?_child tidy top (by decide)
    exact not_missing_child child fits (isDirectory_root tree) missing

theorem isDirectory_lineage {path : String} (directory : whole.isDirectory path = true)
    (fuel : Nat) : ∀ p ∈ lineage fuel path, whole.isDirectory p = true :=
  lineage_forall (fun _ _ there => isDirectory_parent (pathExists_of_isDirectory there)) fuel
    fun _ => directory

theorem makeDirectories_within (grown : before ≤ whole) (plain : whole.LinkFree) {path : String}
    (tidy : path = "/" ∨ Path.Tidy path) (level : ".." ∉ Path.names path)
    (directory : whole.isDirectory path = true) :
    ∃ after, before.makeDirectories path = (none, after) ∧ after ≤ whole := by
  have stand := isDirectory_lineage directory (path.length + 1)
  have fits (p : String) (seen : whole.isDirectory p = true) : Fits p := by
    obtain ⟨goal, found⟩ := (isDirectory_iff whole p).1 seen
    exact fits_of_locate ((view?_eq_some_iff whole p _ _).1 found)
  refine makeLineage_within grown plain (lineage_row _ path fun _ => tidy) (fun p mem => ?_)
    (fun p ends => ?_) (by simp)
  · refine ⟨?_, stand p mem⟩
    rcases lineage_below _ path p mem with rfl | below
    · exact level
    · exact level_below below level
  · obtain ⟨tidy', up⟩ := lineage_last _ path (by omega) (fun _ => tidy) ends
    exact not_missing_of_single tidy' (fits p (stand p (List.mem_of_getLast? ends))) up

end SourceAtlas.FileTree
