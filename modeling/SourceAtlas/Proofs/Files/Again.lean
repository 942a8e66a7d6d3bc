import SourceAtlas.Proofs.Files.Content
import SourceAtlas.Proofs.Files.Lineage
set_option autoImplicit false

namespace SourceAtlas.FileTree

theorem stride_write_of_view {tree : FileTree} {goal : Location} {contents : ByteArray}
    {jump jump' : Bool → Location → List String → Except FileError Spot}
    (next : ∀ slash location names,
      jump slash location names = .ok (.taken goal (.file contents)) → slash = false ∧
        jump' slash location names = .ok (.taken goal (.file contents)))
    (slash : Bool) (location : Location) (names : List String)
    (found : tree.stride .view jump slash location names = .ok (.taken goal (.file contents))) :
    slash = false ∧
      tree.stride .write jump' slash location names = .ok (.taken goal (.file contents)) := by
  induction names using names_induction generalizing location with
  | nil => cases found
  | dot names ih => exact ih location found
  | up names ih => exact ih _ found
  | name name names dot up ih =>
    obtain ⟨short, -, step⟩ := stride_name_ok dot up found
    rw [stride_name _ _ _ _ _ _ dot up]
    cases step with
    | directory here behind =>
      obtain ⟨rfl, again⟩ := ih _ behind
      simpa [short, here] using again
    | link _ _ same => cases same
    | jump here visible behind =>
      obtain ⟨open', again⟩ := next _ _ _ behind
      obtain rfl : slash = false := by simp_all
      simpa [short, here, Purpose.follows, visible] using again
    | last noDirectory noLink last arrives =>
      subst last
      cases here : tree.entry? (location ++ [name]) with
      | none =>
        rw [here] at arrives
        cases arrives
      | some entry =>
        cases entry with
        | directory => exact absurd here noDirectory
        | link target => exact absurd here (noLink target)
        | file old =>
          rw [here] at arrives
          cases slash with
          | true => simp [arrive] at arrives
          | false => simpa [short, arrive] using arrives

theorem walk_write_of_view {tree : FileTree} {goal : Location} {contents : ByteArray} (links : Nat)
    (slash : Bool) (location : Location) (names : List String)
    (found : tree.walk .view links slash location names = .ok (.taken goal (.file contents))) :
    slash = false ∧
      tree.walk .write links slash location names = .ok (.taken goal (.file contents)) := by
  induction links generalizing slash location names with
  | zero =>
    refine stride_write_of_view ?_ slash location names found
    intro _ _ _ never
    cases never
  | succ links ih => exact stride_write_of_view ih slash location names found

theorem locate_write_of_view {tree : FileTree} {path : String} {goal : Location}
    {contents : ByteArray} (found : tree.locate .view path = .ok (.taken goal (.file contents))) :
    tree.locate .write path = .ok (.taken goal (.file contents)) := by
  have fits := fits_of_locate found
  rw [locate_of_fits tree _ fits] at found ⊢
  exact (walk_write_of_view _ _ _ _ found).2

theorem refill_same {tree : FileTree} {location : Location} {contents : ByteArray}
    (found : tree.entry? location = some (.file contents)) :
    tree.refill location contents = tree := by
  have same (here : Location) :
      entry? (tree.refill location contents) here = tree.entry? here := by
    rw [entry?_refill]
    cases held : tree.entry? here with
    | none => rfl
    | some entry =>
      cases entry with
      | directory => rfl
      | link target => rfl
      | file old =>
        by_cases this : here = location
        · subst this
          rw [found] at held
          simpa [Entry.refilled] using held
        · simp [Entry.refilled, this]
  exact le_antisymm ⟨rfl, fun here entry held => (same here).symm.trans held⟩
    ⟨rfl, fun here entry held => (same here).trans held⟩

theorem writeText_again {tree after : FileTree} {path text : String}
    (written : tree.writeText path text = .ok after) : after.writeText path text = .ok after := by
  obtain ⟨location, seen⟩ := locate_written written
  have found : after.entry? location = some (.file text.toUTF8) := locate_sound after .view path _ seen
  rw [writeText, writeBytes, locate_write_of_view seen]
  exact congrArg Except.ok (refill_same found)

theorem makeLineage_of_isDirectory {tree : FileTree} {path : String}
    (directory : tree.isDirectory path = true) (paths : List String) :
    tree.makeLineage [] (path :: paths) = (none, tree) := by
  obtain ⟨location, entry, found⟩ := locate_make_of_isDirectory directory
  rw [makeLineage, makeDirectory_of_taken found]
  simp only [directory, if_true]
  rfl

theorem lineage_cases (fuel : Nat) (path : String) :
    lineage fuel path = [] ∨ ∃ rest, lineage fuel path = path :: rest := by
  cases row : lineage fuel path with
  | nil => exact .inl rfl
  | cons first rest =>
    obtain ⟨rfl, -⟩ := lineage_head row
    exact .inr ⟨rest, rfl⟩

theorem makeDirectories_ready {tree after later : FileTree} {path : String}
    (done : tree.makeDirectories path = (none, after))
    (still : after.isDirectory path = true → later.isDirectory path = true) :
    later.makeDirectories path = (none, later) := by
  rw [makeDirectories] at done ⊢
  rcases lineage_cases (path.length + 1) path with bare | ⟨rest, row⟩
  · rw [bare]
    rfl
  · rw [row] at done ⊢
    exact makeLineage_of_isDirectory (still (makeLineage_done done)) rest

/-- The error is the same the second time, unless a step upwards leads away from what was made. -/
theorem makeDirectories_again {tree after : FileTree} {path : String} {e : FileError}
    (tidy : path ≠ "" → path = "/" ∨ Path.Tidy path)
    (failed : tree.makeDirectories path = (some e, after)) :
    ∃ e', after.makeDirectories path = (some e', after) ∧
      (e' ≠ e → e = .alreadyExists ∧ ".." ∈ Path.names path) := by
  have whole := lineage_row (path.length + 1) path tidy
  have visible := lineage_visible (path.length + 1) path
  rw [makeDirectories] at failed ⊢
  rcases lineage_cases (path.length + 1) path with bare | ⟨rest, row⟩
  · rw [bare] at failed
    cases failed
  rw [row] at failed whole visible ⊢
  rcases makeLineage_again whole visible failed with rfl | ⟨-, -, long | taken⟩
  · exact ⟨e, failed, fun other => absurd rfl other⟩
  · exact ⟨e, long.2.2, fun other => absurd rfl other⟩
  · obtain ⟨kind, up, e', again⟩ := taken
    exact ⟨e', again, fun _ => ⟨kind, up⟩⟩

end SourceAtlas.FileTree
