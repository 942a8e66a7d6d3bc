import SourceAtlas.Proofs.Files.Route
set_option autoImplicit false

namespace SourceAtlas.FileTree

theorem makeDirectory_of_error {tree : FileTree} {path : String} {e : FileError}
    (failed : tree.locate .make path = .error e) : tree.makeDirectory path = .error e := by
  rw [makeDirectory, make, failed]
  rfl

theorem makeDirectory_of_taken {tree : FileTree} {path : String} {location : Location}
    {entry : Entry} (found : tree.locate .make path = .ok (.taken location entry)) :
    tree.makeDirectory path = .error .alreadyExists := by
  rw [makeDirectory, make, found]
  rfl

theorem makeDirectory_of_vacant {tree : FileTree} {path : String} {location : Location}
    (found : tree.locate .make path = .ok (.vacant location)) :
    tree.makeDirectory path = .ok (tree.add location .directory) := by
  rw [makeDirectory, make, found]
  rfl

theorem makeDirectory_ok {tree after : FileTree} {path : String}
    (made : tree.makeDirectory path = .ok after) :
    ∃ location, tree.locate .make path = .ok (.vacant location) ∧
      after = tree.add location .directory := by
  cases found : tree.locate .make path with
  | error e =>
    rw [makeDirectory_of_error found] at made
    cases made
  | ok spot =>
    cases spot with
    | taken location entry =>
      rw [makeDirectory_of_taken found] at made
      cases made
    | vacant location =>
      rw [makeDirectory_of_vacant found] at made
      exact ⟨location, rfl, (Except.ok.inj made).symm⟩

theorem view?_of_made {tree : FileTree} {path : String} {location : Location}
    (found : tree.locate .make path = .ok (.vacant location)) :
    (tree.add location .directory).view? path = some (location, .directory) := by
  have can := locate_sound tree .make path _ found .directory rfl
  have new : entry? (tree.add location .directory) location = some .directory := by
    rw [entry?_add can, if_pos rfl]
  exact (view?_eq_some_iff _ _ _ _).2
    (locate_seen (le_add tree location _) .make path _ _ found (.made location new))

theorem entry?_in_made {tree : FileTree} {path : String} {location : Location}
    (found : tree.locate .make path = .ok (.vacant location)) (name : String) :
    entry? (tree.add location .directory) (location ++ [name]) = none := by
  have can := locate_sound tree .make path _ found .directory rfl
  rw [entry?_add can, if_neg (by simp)]
  cases held : tree.entry? (location ++ [name]) with
  | none => rfl
  | some entry =>
    have outer := entry?_dropLast held
    rw [List.dropLast_concat, ((canAdd_iff tree location _).1 can).2.2.2] at outer
    cases outer

theorem le_makeDirectory {tree after : FileTree} {path : String}
    (made : tree.makeDirectory path = .ok after) : tree ≤ after := by
  obtain ⟨location, -, rfl⟩ := makeDirectory_ok made
  exact le_add tree location .directory

theorem isDirectory_makeDirectory {tree after : FileTree} {path : String}
    (made : tree.makeDirectory path = .ok after) : after.isDirectory path = true := by
  obtain ⟨location, found, rfl⟩ := makeDirectory_ok made
  exact (isDirectory_iff _ path).2 ⟨location, view?_of_made found⟩

def Missing (tree : FileTree) (path : String) : Prop :=
  tree.makeDirectory path = .error .notFound

theorem missing_iff_locate {tree : FileTree} {path : String} :
    tree.Missing path ↔ tree.locate .make path = .error .notFound := by
  refine ⟨fun missing => ?_, makeDirectory_of_error⟩
  rw [Missing] at missing
  cases found : tree.locate .make path with
  | error e =>
    rw [makeDirectory_of_error found] at missing
    exact congrArg Except.error (Except.error.inj missing)
  | ok spot =>
    cases spot with
    | taken location entry =>
      rw [makeDirectory_of_taken found] at missing
      cases missing
    | vacant location =>
      rw [makeDirectory_of_vacant found] at missing
      cases missing

theorem Missing.fits {tree : FileTree} {path : String} (missing : tree.Missing path)
    (visible : path ≠ "") : Fits path := by
  rw [missing_iff_locate, locate] at missing
  refine ⟨?_, visible, ?_⟩
  · intro nul
    rw [if_pos (by simpa using nul)] at missing
    cases missing
  · intro long
    split at missing
    · cases missing
    · cases missing

theorem Missing.not_isDirectory {tree : FileTree} {path : String} (missing : tree.Missing path) :
    tree.isDirectory path = false := by
  by_contra there
  obtain ⟨location, entry, found⟩ := locate_make_of_isDirectory (Bool.not_eq_false _ ▸ there)
  rw [missing_iff_locate, found] at missing
  cases missing

theorem makeEach_keeps {P : FileTree → Prop} {tree : FileTree} {paths : List String}
    (step : ∀ path ∈ paths, ∀ before after, P before → before.makeDirectory path = .ok after →
      P after) (start : P tree) : P (tree.makeEach paths).2 := by
  induction paths generalizing tree with
  | nil => exact start
  | cons path paths ih =>
    have rest : ∀ p ∈ paths, ∀ before after, P before → before.makeDirectory p = .ok after →
        P after := fun p mem => step p (List.mem_cons_of_mem _ mem)
    rw [makeEach]
    split
    · next next made => exact ih rest (step path (List.mem_cons_self ..) tree next start made)
    · split
      · exact ih rest start
      · exact start

theorem le_makeEach (tree : FileTree) (paths : List String) : tree ≤ (tree.makeEach paths).2 :=
  makeEach_keeps (fun _ _ _ _ grown made => le_trans grown (le_makeDirectory made)) (le_rfl tree)

theorem makeEach_done {tree after : FileTree} {paths : List String}
    (done : tree.makeEach paths = (none, after)) : ∀ path ∈ paths, after.isDirectory path = true := by
  induction paths generalizing tree with
  | nil => simp
  | cons path paths ih =>
    intro other mem
    have grown := le_makeEach
    rw [makeEach] at done
    split at done
    · next next made =>
      rcases List.mem_cons.1 mem with rfl | mem
      · have later := grown next paths
        rw [done] at later
        exact isDirectory_mono later (isDirectory_makeDirectory made)
      · exact ih done other mem
    · split at done
      · next there =>
        rcases List.mem_cons.1 mem with rfl | mem
        · have later := grown tree paths
          rw [done] at later
          exact isDirectory_mono later there
        · exact ih done other mem
      · cases done

theorem makeEach_stuck {tree after : FileTree} {paths : List String} {e : FileError}
    (failed : tree.makeEach paths = (some e, after)) :
    ∃ done path rest, paths = done ++ path :: rest ∧ after.makeDirectory path = .error e ∧
      after.isDirectory path = false ∧ ∀ p ∈ done, after.isDirectory p = true := by
  induction paths generalizing tree with
  | nil => cases failed
  | cons path paths ih =>
    have grown := le_makeEach
    -- A path that is done or there already goes before those that the rest has done.
    have resume (tree' : FileTree) (there : tree'.isDirectory path = true)
        (failed : tree'.makeEach paths = (some e, after)) :
        ∃ done stuck rest, path :: paths = done ++ stuck :: rest ∧
          after.makeDirectory stuck = .error e ∧ after.isDirectory stuck = false ∧
          ∀ p ∈ done, after.isDirectory p = true := by
      obtain ⟨done, stuck, rest, rfl, fails, other, stand⟩ := ih failed
      have later := grown tree' (done ++ stuck :: rest)
      rw [failed] at later
      refine ⟨path :: done, stuck, rest, rfl, fails, other, ?_⟩
      intro p mem
      rcases List.mem_cons.1 mem with rfl | mem
      · exact isDirectory_mono later there
      · exact stand p mem
    rw [makeEach] at failed
    split at failed
    · next next made => exact resume next (isDirectory_makeDirectory made) failed
    · next e' fails =>
      split at failed
      · next there => exact resume tree there failed
      · next other =>
        obtain ⟨rfl, rfl⟩ : e' = e ∧ tree = after := by simpa using failed
        exact ⟨[], path, paths, rfl, fails, Bool.not_eq_true _ ▸ other, by simp⟩

end SourceAtlas.FileTree
