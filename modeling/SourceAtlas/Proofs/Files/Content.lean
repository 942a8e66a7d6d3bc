import SourceAtlas.Proofs.Files.Lookup
set_option autoImplicit false

namespace SourceAtlas

def Entry.refilled (location here : Location) (contents : ByteArray) : Entry → Entry
  | .file old => .file (if here = location then contents else old)
  | entry => entry

def Spot.refilled (location : Location) (contents : ByteArray) : Spot → Spot
  | .taken here entry => .taken here (entry.refilled location here contents)
  | .vacant here => .vacant here

namespace FileTree

theorem refilled_eq (location here : Location) (contents : ByteArray) (entry : Entry) :
    refilled location contents (here, entry) = (here, entry.refilled location here contents) := by
  cases entry <;> rfl

theorem find?_refilled (location here : Location) (contents : ByteArray)
    (entries : List (Location × Entry)) :
    find? (entries.map (refilled location contents)) here =
      (find? entries here).map (Entry.refilled location here contents) := by
  induction entries with
  | nil => rfl
  | cons e entries ih =>
    obtain ⟨l, entry⟩ := e
    rw [List.map_cons, refilled_eq, find?_cons, find?_cons, ih]
    split
    · next same =>
      subst same
      rfl
    · rfl

theorem entry?_refill (tree : FileTree) (location here : Location) (contents : ByteArray) :
    entry? (tree.refill location contents) here =
      (tree.entry? here).map (Entry.refilled location here contents) := by
  rw [entry?_def, entry?_def]
  split
  · rfl
  · exact find?_refilled location here contents tree.entries

variable (tree : FileTree) (location : Location) (contents : ByteArray) (purpose : Purpose)

theorem arrive_refilled (slash : Bool) (here : Location) (found : Option Entry) :
    arrive slash purpose here (found.map (Entry.refilled location here contents)) =
      (arrive slash purpose here found).map (Spot.refilled location contents) := by
  rcases found with _ | (old | _ | target)
  · rfl
  · simp only [Option.map_some, Entry.refilled, arrive]
    split <;> rfl
  · rfl
  · rfl

theorem stride_refill (jump jump' : Bool → Location → List String → Except FileError Spot)
    (next : ∀ slash here names,
      jump' slash here names = (jump slash here names).map (Spot.refilled location contents))
    (slash : Bool) (here : Location) (names : List String) :
    (tree.refill location contents).stride purpose jump' slash here names =
      (tree.stride purpose jump slash here names).map (Spot.refilled location contents) := by
  induction names using names_induction generalizing here with
  | nil => rfl
  | dot names ih => exact ih here
  | up names ih => exact ih _
  | name name names dot up ih =>
    rw [stride_name _ _ _ _ _ _ dot up, stride_name _ _ _ _ _ _ dot up, entry?_refill]
    split
    · rfl
    split
    · rfl
    -- The kind of an entry decides the way, and contents do not change it.
    cases found : tree.entry? (here ++ [name]) with
    | none =>
      simp only [Option.map_none]
      split
      · rfl
      · rfl
    | some entry =>
      cases entry with
      | directory => exact ih _
      | link target =>
        simp only [Option.map_some, Entry.refilled]
        split
        · rfl
        split
        · rfl
        · exact next _ _ _
      | file old =>
        simp only [Option.map_some, Entry.refilled]
        split
        · exact arrive_refilled location contents purpose slash _ (some (.file old))
        · rfl

theorem walk_refill (links : Nat) (slash : Bool) (here : Location) (names : List String) :
    (tree.refill location contents).walk purpose links slash here names =
      (tree.walk purpose links slash here names).map (Spot.refilled location contents) := by
  induction links generalizing slash here names with
  | zero =>
    refine stride_refill tree location contents purpose _ _ ?_ slash here names
    exact fun _ _ _ => rfl
  | succ links ih => exact stride_refill tree location contents purpose _ _ ih _ _ _

theorem locate_refill (path : String) :
    (tree.refill location contents).locate purpose path =
      (tree.locate purpose path).map (Spot.refilled location contents) := by
  rw [locate, locate]
  split
  · rfl
  split
  · rfl
  split
  · rfl
  exact walk_refill tree location contents purpose _ _ _ _

variable {tree location contents purpose}

theorem writeBytes_cases {after : FileTree} {path : String}
    (written : tree.writeBytes path contents = .ok after) :
    (∃ location old, tree.locate .write path = .ok (.taken location (.file old)) ∧
        after = tree.refill location contents) ∨
      ∃ location, tree.locate .write path = .ok (.vacant location) ∧
        after = tree.add location (.file contents) := by
  rw [writeBytes] at written
  cases found : tree.locate .write path with
  | error e =>
    rw [found] at written
    cases written
  | ok spot =>
    rw [found] at written
    cases spot with
    | taken location entry =>
      cases entry with
      | directory => cases written
      | link target => cases written
      | file old => exact .inl ⟨location, old, rfl, (Except.ok.inj written).symm⟩
    | vacant location => exact .inr ⟨location, rfl, (Except.ok.inj written).symm⟩

theorem locate_written {after : FileTree} {path : String}
    (written : tree.writeBytes path contents = .ok after) :
    ∃ location, after.locate .view path = .ok (.taken location (.file contents)) := by
  rcases writeBytes_cases written with ⟨location, old, found, rfl⟩ | ⟨location, found, rfl⟩
  · have seen := locate_seen (le_rfl tree) .write path _ _ found (.file location old (by decide))
    refine ⟨location, ?_⟩
    rw [locate_refill, seen]
    simp [Except.map, Spot.refilled, Entry.refilled]
  · have can := locate_sound tree .write path _ found (.file contents) rfl
    have new : entry? (tree.add location (.file contents)) location = some (.file contents) := by
      rw [entry?_add can, if_pos rfl]
    exact ⟨location, locate_seen (le_add tree location _) .write path _ _ found
      (.written location contents rfl new)⟩

theorem decoded_toUTF8 (text : String) : String.fromUTF8? text.toUTF8 = some text := by
  simp only [String.fromUTF8?, String.toUTF8_eq_toByteArray, dif_pos text.isValidUTF8]
  rfl

theorem readText_eq_ok_iff (tree : FileTree) (path text : String) :
    tree.readText path = .ok text ↔ ∃ location contents,
      tree.view? path = some (location, .file contents) ∧ String.fromUTF8? contents = some text := by
  simp only [view?_eq_some_iff]
  rw [readText, readBytes]
  cases tree.locate .view path with
  | error e => simp [bind, Except.bind]
  | ok spot =>
    cases spot with
    | vacant location => simp [bind, Except.bind]
    | taken location entry =>
      cases entry with
      | directory => simp [bind, Except.bind]
      | link target => simp [bind, Except.bind]
      | file contents =>
        simp only [bind, Except.bind]
        constructor
        · intro read
          refine ⟨location, contents, rfl, ?_⟩
          split at read
          · cases read
            assumption
          · cases read
        · rintro ⟨here, held, same, decoded⟩
          cases same
          rw [decoded]

theorem readText_written {after : FileTree} {path text : String}
    (written : tree.writeText path text = .ok after) : after.readText path = .ok text := by
  obtain ⟨location, found⟩ := locate_written written
  exact (readText_eq_ok_iff after path text).2
    ⟨location, _, (view?_eq_some_iff after path _ _).2 found, decoded_toUTF8 text⟩

end FileTree

end SourceAtlas
