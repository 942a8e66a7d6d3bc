import Mathlib.Data.List.Chain
import SourceAtlas.Proofs.Files.Making
set_option autoImplicit false

/-!
# Making a directory with all it lies in

The directories that a path lies in are tried from the inside until one can be made or is there, and
then made on the way back. If that fails, it fails again on the tree it leaves, which does not change
any more.
-/

namespace SourceAtlas

def Path.Row (paths : List String) : Prop :=
  paths.IsChain fun path base => ∃ last, Path.Child base path last

theorem Path.Row.split {front back : List String} {path : String}
    (row : Path.Row (front ++ path :: back)) :
    Path.Row (front ++ [path]) ∧ Path.Row (path :: back) :=
  List.isChain_split.1 row

theorem Path.Row.child {path base : String} {back : List String}
    (row : Path.Row (path :: base :: back)) : ∃ last, Path.Child base path last :=
  (List.isChain_cons_cons.1 row).1

theorem Path.Row.below {front back : List String} {base : String}
    (row : Path.Row (front ++ base :: back)) : ∀ path ∈ front, Path.Below base path := by
  induction front with
  | nil => simp
  | cons first front ih =>
    intro path mem
    have tail : Path.Row (front ++ base :: back) := List.IsChain.tail row
    rcases List.mem_cons.1 mem with rfl | mem
    · cases front with
      | nil =>
        obtain ⟨last, child⟩ := Path.Row.child row
        exact child.below
      | cons next front =>
        obtain ⟨last, child⟩ := Path.Row.child row
        exact (ih tail next (List.mem_cons_self ..)).trans child.below
    · exact ih tail path mem

theorem Path.Row.level {path : String} {paths : List String} (row : Path.Row (path :: paths))
    (level : ".." ∉ Path.names path) : ∀ p ∈ path :: paths, ".." ∉ Path.names p := by
  intro p mem up
  rcases List.mem_cons.1 mem with rfl | mem
  · exact level up
  · obtain ⟨before, after, rfl⟩ := List.append_of_mem mem
    have row' : Path.Row ((path :: before) ++ p :: after) := row
    obtain ⟨-, rest, -, same⟩ := row'.below path (List.mem_cons_self ..)
    exact level (by simp [same, up])

namespace FileTree

theorem lineage_succ (fuel : Nat) (path : String) :
    lineage (fuel + 1) path =
      if path = "" then []
      else match Path.parent? path with
        | none => []
        | some parent => path :: lineage fuel parent := by
  by_cases visible : path = ""
  · subst visible
    rfl
  · rw [if_neg visible]
    cases up : Path.parent? path with
    | none => exact lineage.eq_3 _ _ visible up
    | some parent => exact lineage.eq_4 _ _ _ visible up

theorem lineage_head {fuel : Nat} {path first : String} {rest : List String}
    (row : lineage fuel path = first :: rest) : first = path ∧ first ≠ "" := by
  cases fuel with
  | zero => cases row
  | succ fuel =>
    rw [lineage_succ] at row
    split at row
    · cases row
    next visible =>
    split at row
    · cases row
    · obtain ⟨rfl, -⟩ := List.cons.inj row
      exact ⟨rfl, visible⟩

/-- What a path has, and what goes over to a parent with a name, all directories of a lineage have. -/
theorem lineage_forall {P : String → Prop}
    (up : ∀ path parent, P path → Path.parent? path = some parent → parent ≠ "" → P parent)
    (fuel : Nat) {path : String} (start : path ≠ "" → P path) : ∀ p ∈ lineage fuel path, P p := by
  induction fuel generalizing path with
  | zero => simp [lineage]
  | succ fuel ih =>
    intro p mem
    rw [lineage_succ] at mem
    split at mem
    · cases mem
    next visible =>
    split at mem
    · cases mem
    next parent found =>
    rcases List.mem_cons.1 mem with rfl | mem
    · exact start visible
    · exact ih (up path parent (start visible) found) p mem

theorem lineage_visible (fuel : Nat) (path : String) : ∀ p ∈ lineage fuel path, p ≠ "" :=
  lineage_forall (fun _ _ _ _ named => named) fuel id

theorem lineage_row (fuel : Nat) (path : String)
    (tidy : path ≠ "" → path = "/" ∨ Path.Tidy path) : Path.Row (lineage fuel path) := by
  induction fuel generalizing path with
  | zero => exact .nil
  | succ fuel ih =>
    rw [lineage_succ]
    split
    · exact .nil
    next visible =>
    split
    · exact .nil
    next parent up =>
    have whole : Path.Tidy path := by
      rcases tidy visible with rfl | whole
      · cases up
      · exact whole
    have rest : Path.Row (lineage fuel parent) :=
      ih parent fun named => (Path.parent?_tidy up named).imp id And.left
    cases row : lineage fuel parent with
    | nil => exact .singleton _
    | cons first more =>
      obtain ⟨rfl, named⟩ := lineage_head row
      rw [row] at rest
      exact List.isChain_cons_cons.2 ⟨Path.parent?_child whole up named, rest⟩

/-- How the attempt to make one of the directories of a row ends: with one that can be made, one that
is there, one that is in the way, or none, after those that are missing. -/
inductive Climb (tree : FileTree) (missing paths : List String)
    (result : Option FileError × FileTree) : Prop
  | made (front : List String) (top : String) (back : List String) (next : FileTree)
      (row : paths = front ++ top :: back) (absent : ∀ p ∈ front, tree.Missing p)
      (makes : tree.makeDirectory top = .ok next)
      (ends : next.makeEach (front.reverse ++ missing) = result)
  | there (front : List String) (top : String) (back : List String)
      (row : paths = front ++ top :: back) (absent : ∀ p ∈ front, tree.Missing p)
      (directory : tree.isDirectory top = true)
      (ends : tree.makeEach (front.reverse ++ missing) = result)
  | stuck (e : FileError) (ends : (some e, tree) = result)
  | nowhere (absent : ∀ p ∈ paths, tree.Missing p)
      (ends : tree.makeEach (paths.reverse ++ missing) = result)

theorem Climb.cons {tree : FileTree} {missing paths : List String} {path : String}
    {result : Option FileError × FileTree} (absent : tree.Missing path)
    (climb : Climb tree (path :: missing) paths result) :
    Climb tree missing (path :: paths) result := by
  have extend {front : List String} (missing : ∀ p ∈ front, tree.Missing p) :
      ∀ p ∈ path :: front, tree.Missing p := by
    intro p mem
    rcases List.mem_cons.1 mem with rfl | mem
    · exact absent
    · exact missing p mem
  have turned (front : List String) :
      (path :: front).reverse ++ missing = front.reverse ++ path :: missing := by simp
  cases climb with
  | made front top back next row missing makes ends =>
    exact .made (path :: front) top back next (by rw [row, List.cons_append]) (extend missing) makes
      (by rw [turned, ends])
  | there front top back row missing directory ends =>
    exact .there (path :: front) top back (by rw [row, List.cons_append]) (extend missing) directory
      (by rw [turned, ends])
  | stuck e ends => exact .stuck e ends
  | nowhere missing ends => exact .nowhere (extend missing) (by rw [turned, ends])

theorem makeLineage_climb (tree : FileTree) (missing paths : List String) :
    Climb tree missing paths (tree.makeLineage missing paths) := by
  induction paths generalizing missing with
  | nil => exact .nowhere (by simp) rfl
  | cons path paths ih =>
    rw [makeLineage]
    split
    · next next makes => exact .made [] path paths next rfl (by simp) makes rfl
    · next absent => exact (ih (path :: missing)).cons absent
    · split
      · next directory => exact .there [] path paths rfl (by simp) directory rfl
      · exact .stuck _ rfl

theorem makeLineage_skip (tree : FileTree) (missing front paths : List String)
    (absent : ∀ p ∈ front, tree.Missing p) :
    tree.makeLineage missing (front ++ paths) =
      tree.makeLineage (front.reverse ++ missing) paths := by
  induction front generalizing missing with
  | nil => rfl
  | cons path front ih =>
    have first : tree.makeDirectory path = .error .notFound := absent path (List.mem_cons_self ..)
    rw [List.cons_append, makeLineage, first]
    simp only
    rw [ih _ fun p mem => absent p (List.mem_cons_of_mem _ mem), List.reverse_cons,
      List.append_assoc, List.singleton_append]

theorem makeLineage_stop (tree : FileTree) (missing paths : List String) (path : String)
    (e : FileError) (fails : tree.makeDirectory path = .error e) (strict : e ≠ .notFound)
    (other : tree.isDirectory path = false) :
    tree.makeLineage missing (path :: paths) = (some e, tree) := by
  rw [makeLineage, fails]
  split
  · next made => cases made
  · next absent => exact absurd (Except.error.inj absent) strict
  · next same =>
    obtain rfl := Except.error.inj same
    rw [if_neg (by simp [other])]

/-- What making one of some directories keeps, making the innermost with all it lies in keeps. -/
theorem makeLineage_keeps {P : FileTree → Prop} {tree : FileTree} {missing paths : List String}
    (step : ∀ path ∈ missing ++ paths, ∀ before after, P before →
      before.makeDirectory path = .ok after → P after) (start : P tree) :
    P (tree.makeLineage missing paths).2 := by
  induction paths generalizing missing with
  | nil => exact makeEach_keeps (by simpa using step) start
  | cons path paths ih =>
    have inner : ∀ p ∈ missing, ∀ before after, P before → before.makeDirectory p = .ok after →
        P after := fun p mem => step p (List.mem_append_left _ mem)
    rw [makeLineage]
    split
    · next next made => exact makeEach_keeps inner (step path (by simp) tree next start made)
    -- A path whose parent is not there yet joins those that are missing.
    · refine ih fun p mem => step p ?_
      simp only [List.cons_append, List.mem_cons, List.mem_append] at mem ⊢
      tauto
    · split
      · exact makeEach_keeps inner start
      · exact start

theorem le_makeLineage (tree : FileTree) (paths : List String) :
    tree ≤ (tree.makeLineage [] paths).2 :=
  makeLineage_keeps (fun _ _ _ _ grown made => le_trans grown (le_makeDirectory made)) (le_rfl tree)

theorem le_makeDirectories (tree : FileTree) (path : String) :
    tree ≤ (tree.makeDirectories path).2 :=
  le_makeLineage tree _

theorem makeLineage_done {tree after : FileTree} {path : String} {paths : List String}
    (done : tree.makeLineage [] (path :: paths) = (none, after)) : after.isDirectory path = true := by
  -- The first path is either the one where the attempt ends or among those that are made after it.
  have first {front back : List String} {top : String} {from' : FileTree}
      (row : path :: paths = front ++ top :: back) (directory : from'.isDirectory top = true)
      (ends : from'.makeEach (front.reverse ++ []) = (none, after)) :
      after.isDirectory path = true := by
    cases front with
    | nil =>
      obtain ⟨rfl, -⟩ := List.cons.inj row
      obtain rfl : from' = after := congrArg Prod.snd ends
      exact directory
    | cons head front =>
      obtain ⟨rfl, -⟩ := List.cons.inj row
      exact makeEach_done ends path (by simp)
  cases makeLineage_climb tree [] (path :: paths) with
  | made front top back next row absent makes ends =>
    exact first row (isDirectory_makeDirectory makes) (ends.trans done)
  | there front top back row absent directory ends => exact first row directory (ends.trans done)
  | stuck e ends =>
    rw [done] at ends
    cases ends
  | nowhere absent ends => exact makeEach_done (ends.trans done) path (by simp)

/-- In a directory that is new, making directories one in the other only fails at a name that is too
long, unless a step upwards leaves it. -/
theorem makeEach_fresh {tree after : FileTree} {base : String} {paths : List String}
    {location : Location} {e : FileError} (row : Path.Row (paths.reverse ++ [base]))
    (level : ∀ p ∈ paths, ".." ∉ Path.names p) (fits : ∀ p ∈ paths, Fits p)
    (inside : tree.view? base = some (location, .directory))
    (fresh : ∀ name, tree.entry? (location ++ [name]) = none)
    (failed : tree.makeEach paths = (some e, after)) : e = .nameTooLong := by
  induction paths generalizing tree base location with
  | nil => cases failed
  | cons path paths ih =>
    rw [List.reverse_cons, List.append_assoc, List.singleton_append] at row
    obtain ⟨inner, outer⟩ := row.split
    obtain ⟨last, child⟩ := outer.child
    have plain : last ≠ ".." := by
      rintro rfl
      obtain ⟨-, -, dots, -, same⟩ := child
      exact level path (List.mem_cons_self ..) (by simp [same])
    have arrives := locate_make_child child (fits path (List.mem_cons_self ..)) inside
    rw [if_neg plain, fresh] at arrives
    by_cases long : nameLimit < last.utf8ByteSize
    · rw [if_pos long] at arrives
      rw [makeEach, makeDirectory_of_error arrives] at failed
      simp only at failed
      split at failed
      · next directory =>
        obtain ⟨_, _, found⟩ := locate_make_of_isDirectory directory
        rw [arrives] at found
        cases found
      · obtain ⟨rfl, -⟩ : FileError.nameTooLong = e ∧ tree = after := by simpa using failed
        rfl
    · rw [if_neg long] at arrives
      have made := makeDirectory_of_vacant arrives
      rw [makeEach, made] at failed
      simp only at failed
      exact ih inner (fun p mem => level p (List.mem_cons_of_mem _ mem))
        (fun p mem => fits p (List.mem_cons_of_mem _ mem)) (view?_of_made arrives)
        (entry?_in_made arrives) failed

theorem makeDirectory_child_error {tree : FileTree} {base path last : String} {e : FileError}
    (child : Path.Child base path last) (fits : Fits path) (inside : tree.isDirectory base = true)
    (fails : tree.makeDirectory path = .error e) :
    e = .alreadyExists ∨ e = .nameTooLong ∧ ∀ deeper, deeper = path ∨ Path.Below path deeper →
      Fits deeper → ∀ purpose, purpose ≠ .write →
        tree.locate purpose deeper = .error .nameTooLong := by
  obtain ⟨location, found⟩ := (isDirectory_iff tree base).1 inside
  have arrives := locate_make_child child fits found
  split at arrives
  · rw [makeDirectory_of_taken arrives] at fails
    exact .inl (Except.error.inj fails).symm
  next up =>
  split at arrives
  · next long =>
    rw [makeDirectory_of_error arrives] at fails
    exact .inr ⟨(Except.error.inj fails).symm, fun deeper onwards whole purpose strict =>
      locate_overlong child found up long onwards whole purpose strict⟩
  · split at arrives
    · rw [makeDirectory_of_vacant arrives] at fails
      cases fails
    · rw [makeDirectory_of_taken arrives] at fails
      exact .inl (Except.error.inj fails).symm

/-- What would lie in a directory that is there can be made, or something else is in the way. -/
theorem not_missing_child {tree : FileTree} {base path last : String}
    (child : Path.Child base path last) (fits : Fits path) (inside : tree.isDirectory base = true) :
    ¬ tree.Missing path := by
  intro missing
  rcases makeDirectory_child_error child fits inside missing with never | ⟨never, -⟩
  · cases never
  · cases never

theorem makeLineage_blocked {tree : FileTree} {front back : List String} {path : String}
    {e blocked : FileError} (fails : tree.makeDirectory path = .error e) (strict : e ≠ .notFound)
    (other : tree.isDirectory path = false)
    (inner : ∀ p ∈ front, ∀ purpose, purpose ≠ .write → tree.locate purpose p = .error blocked) :
    tree.makeLineage [] (front ++ path :: back) = (some e, tree) ∨
      tree.makeLineage [] (front ++ path :: back) = (some blocked, tree) := by
  have stuck : ∀ p ∈ front, tree.makeDirectory p = .error blocked := fun p mem =>
    makeDirectory_of_error (inner p mem .make (by decide))
  by_cases absent : blocked = .notFound
  · subst absent
    rw [makeLineage_skip tree [] front _ stuck]
    exact .inl (makeLineage_stop tree _ back path e fails strict other)
  · cases front with
    | nil => exact .inl (makeLineage_stop tree _ back path e fails strict other)
    | cons first front =>
      have mem : first ∈ first :: front := List.mem_cons_self ..
      have nothing : tree.isDirectory first = false := isDirectory_of_not_pathExists
        (pathExists_of_locate_error (inner first mem .view (by decide)))
      exact .inr (makeLineage_stop tree _ _ first blocked (stuck first mem) absent nothing)

theorem makeEach_missing {tree : FileTree} {paths : List String} (some' : paths ≠ [])
    (absent : ∀ p ∈ paths, tree.Missing p) : tree.makeEach paths = (some .notFound, tree) := by
  cases paths with
  | nil => exact absurd rfl some'
  | cons path paths =>
    have first := absent path (List.mem_cons_self ..)
    have nothing := first.not_isDirectory
    rw [Missing] at first
    rw [makeEach, first]
    simp [nothing]

theorem makeEach_obstacle {tree after : FileTree} {front back : List String} {top : String}
    {e : FileError} (row : Path.Row (front ++ top :: back)) (inside : tree.isDirectory top = true)
    (failed : tree.makeEach front.reverse = (some e, after)) :
    ∃ inner path outer base last, front = inner ++ path :: outer ∧ Path.Child base path last ∧
      after.isDirectory base = true ∧ after.makeDirectory path = .error e ∧
      after.isDirectory path = false := by
  have grown := le_makeEach tree front.reverse
  rw [failed] at grown
  obtain ⟨done, path, rest, order, fails, other, stand⟩ := makeEach_stuck failed
  have split : front = rest.reverse ++ path :: done.reverse := by
    rw [← List.reverse_reverse front, order]
    simp
  rw [split, List.append_assoc, List.cons_append] at row
  have outer := row.split.2
  cases before : done.reverse with
  | nil =>
    rw [before] at outer
    obtain ⟨last, child⟩ := outer.child
    exact ⟨_, path, _, top, last, split, child, isDirectory_mono grown inside, fails, other⟩
  | cons base more =>
    rw [before] at outer
    obtain ⟨last, child⟩ := outer.child
    have mem : base ∈ done := by
      rw [← List.mem_reverse, before]
      exact List.mem_cons_self ..
    exact ⟨_, path, _, base, last, split, child, stand base mem, fails, other⟩

/-- What is in the way of one directory of a row is in the way of the first one, now and later on. -/
theorem makeLineage_obstacle {tree : FileTree} {inner outer : List String}
    {path stuck base last : String} {paths : List String} {e : FileError}
    (row : Path.Row (path :: paths)) (order : path :: paths = inner ++ stuck :: outer)
    (fits : ∀ p ∈ inner ++ [stuck], Fits p) (child : Path.Child base stuck last)
    (inside : tree.isDirectory base = true) (fails : tree.makeDirectory stuck = .error e)
    (other : tree.isDirectory stuck = false) :
    tree.isDirectory path = false ∧
      (e = .nameTooLong ∧ tree.pathExists path = false ∧
          tree.makeLineage [] (path :: paths) = (some e, tree) ∨
        e = .alreadyExists ∧ ∃ e', tree.makeLineage [] (path :: paths) = (some e', tree)) := by
  have stuckFits : Fits stuck := fits stuck (by simp)
  have innerFits : ∀ p ∈ inner, Fits p := fun p mem => fits p (by simp [mem])
  have onwards : ∀ p ∈ inner, Path.Below stuck p := Path.Row.below (order ▸ row)
  have first : path = stuck ∨ path ∈ inner := by
    cases inner with
    | nil => exact .inl (List.cons.inj order).1
    | cons head inner => exact .inr (by rw [(List.cons.inj order).1]; exact List.mem_cons_self ..)
  rcases makeDirectory_child_error child stuckFits inside fails with rfl | ⟨rfl, long⟩
  · -- The names of what is stuck do not lead to a directory, which stops all behind it.
    obtain ⟨reason, blocked⟩ := reach_of_not_isDirectory stuckFits other
    have behind : ∀ p ∈ inner, ∀ purpose, purpose ≠ .write →
        tree.locate purpose p = .error reason := fun p mem purpose _ =>
      locate_blocked blocked (onwards p mem) purpose (innerFits p mem)
    refine ⟨?_, .inr ⟨rfl, ?_⟩⟩
    · rcases first with rfl | mem
      · exact other
      · exact isDirectory_of_not_pathExists
          (pathExists_of_locate_error (behind path mem .view (by decide)))
    · rw [order]
      rcases makeLineage_blocked fails (by decide) other behind with again | again
      · exact ⟨_, again⟩
      · exact ⟨_, again⟩
  · have behind : ∀ p ∈ inner, ∀ purpose, purpose ≠ .write →
        tree.locate purpose p = .error .nameTooLong := fun p mem purpose strict =>
      long p (.inr (onwards p mem)) (innerFits p mem) purpose strict
    have pathFits : Fits path := first.elim (fun here => here ▸ stuckFits) (innerFits path)
    have unseen := pathExists_of_locate_error
      (long path (first.imp id (onwards path)) pathFits .view (by decide))
    refine ⟨isDirectory_of_not_pathExists unseen, .inl ⟨rfl, unseen, ?_⟩⟩
    rw [order]
    rcases makeLineage_blocked fails (by decide) other behind with again | again
    · exact again
    · exact again

/-- If a directory cannot be made with all it lies in, either nothing has changed, or something is in
the way of one of the directories, now and later on. -/
theorem makeLineage_again {tree after : FileTree} {path : String} {paths : List String}
    {e : FileError} (row : Path.Row (path :: paths)) (visible : ∀ p ∈ path :: paths, p ≠ "")
    (failed : tree.makeLineage [] (path :: paths) = (some e, after)) :
    after = tree ∨ Fits path ∧ after.isDirectory path = false ∧
      (e = .nameTooLong ∧ after.pathExists path = false ∧
          after.makeLineage [] (path :: paths) = (some e, after) ∨
        e = .alreadyExists ∧ ".." ∈ Path.names path ∧
          ∃ e', after.makeLineage [] (path :: paths) = (some e', after)) := by
  cases makeLineage_climb tree [] (path :: paths) with
  | stuck e' ends =>
    rw [failed] at ends
    exact .inl (congrArg Prod.snd ends).symm
  | nowhere absent ends =>
    rw [failed, List.append_nil, makeEach_missing (by simp) fun p mem =>
      absent p (List.mem_reverse.1 mem)] at ends
    exact .inl (congrArg Prod.snd ends).symm
  | there front top back same absent directory ends =>
    rw [failed, List.append_nil] at ends
    rcases List.eq_nil_or_concat' front with rfl | ⟨init, last, rfl⟩
    · cases ends
    · rw [same, List.append_assoc, List.singleton_append] at row
      obtain ⟨name, child⟩ := row.split.2.child
      have missing := absent last (by simp)
      have fits := missing.fits (visible last (by simp [same]))
      exact absurd missing (not_missing_child child fits directory)
  | made front top back next same absent makes ends =>
    rw [failed, List.append_nil] at ends
    have fits : ∀ p ∈ front, Fits p := fun p mem =>
      (absent p mem).fits (visible p (by simp [same, mem]))
    have whole : Path.Row (front ++ top :: back) := same ▸ row
    obtain ⟨inner, stuck, outer, base, last, split, child, inside, fails, other⟩ :=
      makeEach_obstacle whole (isDirectory_makeDirectory makes) ends
    have order : path :: paths = inner ++ stuck :: (outer ++ top :: back) := by
      rw [same, split, List.append_assoc, List.cons_append]
    have pathFits : Fits path := by
      cases front with
      | nil => simp at split
      | cons head front => exact fits path (by rw [(List.cons.inj same).1]; exact List.mem_cons_self ..)
    obtain ⟨nothing, reason⟩ := makeLineage_obstacle row order
      (fun p mem => fits p (by rw [split]; simp at mem ⊢; exact mem.imp id .inl)) child inside fails
      other
    refine .inr ⟨pathFits, nothing, reason.imp id fun stops => ⟨stops.1, ?_, stops.2⟩⟩
    -- Without a step upwards all goes on in the directory that is new.
    by_contra level
    have plain : ∀ p ∈ front.reverse, ".." ∉ Path.names p := fun p mem =>
      row.level level p (by simp [same, List.mem_reverse.1 mem])
    obtain ⟨location, found, rfl⟩ := makeDirectory_ok makes
    have long := makeEach_fresh (by simpa using whole.split.1) plain
      (fun p mem => fits p (List.mem_reverse.1 mem)) (view?_of_made found)
      (entry?_in_made found) ends
    rw [stops.1] at long
    cases long

end FileTree

end SourceAtlas
