import SourceAtlas.Diagram.File
import SourceAtlas.Proofs.Files.Again
import SourceAtlas.Proofs.Files.Direct
set_option autoImplicit false

namespace SourceAtlas

namespace FileTree

def Passes (tree : FileTree) (path : String) (location : Location) : Prop :=
  ∃ front rest, rest ≠ [] ∧ Path.names path = front ++ rest ∧
    location = front.foldl advance (tree.origin path)

theorem passes_of_below {base path : String} (below : Path.Below base path) (tree : FileTree) :
    tree.Passes path (tree.destination base) := by
  obtain ⟨anchored, rest, rooted, same⟩ := below
  exact ⟨Path.names base, rest, rooted, same, by rw [destination, origin, origin, anchored]⟩

theorem Passes.of_le {before after : FileTree} (grown : before ≤ after) {path : String}
    {location : Location} (passes : after.Passes path location) : before.Passes path location := by
  obtain ⟨front, rest, rooted, same, here⟩ := passes
  exact ⟨front, rest, rooted, same, by rw [here, origin, origin, grown.1]⟩

def Paves (tree : FileTree) (path : String) (location : Location) (entry : Entry) : Prop :=
  entry = .directory ∧ tree.Passes path location

/-- What a tree is like after contents have been saved to a path: a file holds them where the path
leads, and all else is as before but for directories on the way there. -/
structure SavedAt (before after : FileTree) (path : String) (contents : ByteArray) : Prop where
  linkFree : after.LinkFree
  here : after.here = before.here
  stands : after.entry? (before.destination path) = some (.file contents)
  /-- It was a file before, too, or nothing. -/
  free : ∀ entry, before.entry? (before.destination path) = some entry →
    ∃ old, entry = .file old
  named : ∃ init last, Path.names path = init ++ [last] ∧ last ≠ "." ∧ last ≠ ".."
  other : ∀ location, location ≠ before.destination path →
    after.entry? location = before.entry? location ∨
      before.entry? location = none ∧ ∃ entry, after.entry? location = some entry ∧
        before.Paves path location entry

theorem linkFree_refill {tree : FileTree} (plain : tree.LinkFree) (location : Location)
    (contents : ByteArray) : (tree.refill location contents).LinkFree := by
  intro e mem
  obtain ⟨⟨here, entry⟩, held, rfl⟩ := List.mem_map.1 mem
  have kind := plain _ held
  rw [refilled_eq]
  cases entry with
  | file old => rfl
  | directory => rfl
  | link target => exact kind

/-- What is seen elsewhere than where a file is written is still seen, and so are directories. -/
theorem view?_written {tree after : FileTree} {path text base : String} {location : Location}
    {entry : Entry} (written : tree.writeText path text = .ok after)
    (seen : tree.view? base = some (location, entry))
    (other : entry = .directory ∨ tree.view? path ≠ some (location, entry)) :
    after.view? base = some (location, entry) := by
  rcases writeBytes_cases written with ⟨here, old, found, rfl⟩ | ⟨here, -, rfl⟩
  · have seen' := (view?_eq_some_iff tree path _ _).2
      (locate_seen (le_rfl tree) .write path _ _ found (.file here old (by decide)))
    have stands : tree.entry? here = some (.file old) := locate_sound tree .write path _ found
    rw [view?_eq_some_iff] at seen ⊢
    have stands' : tree.entry? location = some entry := locate_sound tree .view base _ seen
    rw [locate_refill, seen]
    cases entry with
    | directory => rfl
    | link target => rfl
    | file contents =>
      have apart : location ≠ here := by
        rintro rfl
        rw [stands] at stands'
        rw [seen', Option.some.inj stands'] at other
        simp at other
      simp [Except.map, Spot.refilled, Entry.refilled, apart]
  · exact view?_mono (le_add tree here _) seen

theorem entry?_refill_of_ne {tree : FileTree} {location here : Location} (contents : ByteArray)
    (other : here ≠ location) : entry? (tree.refill location contents) here = tree.entry? here := by
  rw [entry?_refill]
  rcases tree.entry? here with _ | (old | _ | target)
  · rfl
  · simp [Entry.refilled, other]
  · rfl
  · rfl

theorem writeText_savedAt {tree after : FileTree} (plain : tree.LinkFree) {path text : String}
    (written : tree.writeText path text = .ok after) : tree.SavedAt after path text.toUTF8 := by
  rcases writeBytes_cases written with ⟨location, old, found, rfl⟩ | ⟨location, found, rfl⟩
  · obtain ⟨here, named⟩ := locate_led plain found
    have stood : tree.entry? location = some (.file old) := locate_sound tree .write path _ found
    obtain rfl : location = tree.destination path := here
    refine ⟨linkFree_refill plain _ _, rfl, ?_, ?_, named (by simp), fun other apart => .inl ?_⟩
    · rw [entry?_refill, stood]
      simp [Entry.refilled]
    · intro entry held
      rw [stood] at held
      exact ⟨old, (Option.some.inj held).symm⟩
    · exact entry?_refill_of_ne _ apart
  · obtain ⟨here, named⟩ := locate_led plain found
    have can := locate_sound tree .write path _ found (.file text.toUTF8) rfl
    obtain rfl : location = tree.destination path := here
    refine ⟨linkFree_add plain _ rfl, (add_of_canAdd can).2, ?_, ?_, named (by simp),
      fun other apart => .inl ?_⟩
    · rw [entry?_add can, if_pos rfl]
    · intro entry held
      rw [((canAdd_iff tree _ _).1 can).2.2.2] at held
      cases held
    · rw [entry?_add can, if_neg (Ne.symm apart)]

theorem SavedAt.behind {before middle after : FileTree} {path : String} {contents : ByteArray}
    (saved : middle.SavedAt after path contents) (paved : before.Grows middle (before.Paves path)) :
    before.SavedAt after path contents := by
  have same : middle.destination path = before.destination path := destination_of_le paved.le path
  refine ⟨saved.linkFree, saved.here.trans paved.le.1, same ▸ saved.stands, fun entry held => ?_,
    saved.named, fun location apart => ?_⟩
  · exact saved.free entry (same ▸ paved.le.2 _ _ held)
  · rcases saved.other location (same ▸ apart) with kept | ⟨absent, entry, new, kind, passes⟩
    · cases held : before.entry? location with
      | some entry => exact .inl (kept.trans (paved.le.2 _ _ held))
      | none =>
        cases made : middle.entry? location with
        | none => exact .inl (kept.trans made)
        | some entry =>
          exact .inr ⟨rfl, entry, kept.trans made, paved.new location entry made held⟩
    · exact .inr ⟨absent_of_le paved.le absent, entry, new, kind, passes.of_le paved.le⟩

theorem makeDirectories_blank (tree : FileTree) : tree.makeDirectories "" = (none, tree) := rfl

theorem makeDirectories_paves {tree : FileTree} (plain : tree.LinkFree) (path : String) :
    tree.Grows (tree.makeDirectories ((Path.parent? path).getD "")).2 (tree.Paves path) := by
  by_cases blank : (Path.parent? path).getD "" = ""
  · rw [blank, makeDirectories_blank]
    exact .refl plain _
  obtain ⟨parent, up⟩ : ∃ parent, Path.parent? path = some parent := by
    cases up : Path.parent? path with
    | none => simp [up] at blank
    | some parent => exact ⟨parent, rfl⟩
  rw [up, Option.getD_some] at blank ⊢
  have below := Path.parent?_below up blank
  refine (makeDirectories_made plain parent).mono ?_
  rintro location entry ⟨kind, p, rfl | above, rfl⟩
  · exact ⟨kind, passes_of_below below tree⟩
  · exact ⟨kind, passes_of_below (above.trans below) tree⟩

end FileTree

namespace Diagram

open FileTree

inductive Saving (tree : FileTree) (path : String) (diagram : Diagram) :
    Option Failure × FileTree → Prop
  | blocked (e : FileError) (after : FileTree)
    (stops : tree.makeDirectories ((Path.parent? path).getD "") = (some e, after)) :
    Saving tree path diagram (some (.file e), after)
  | refused (e : FileError) (after : FileTree)
    (makes : tree.makeDirectories ((Path.parent? path).getD "") = (none, after))
    (fails : after.writeText path diagram.write = .error e) :
    Saving tree path diagram (some (.file e), after)
  | written (middle after : FileTree)
    (makes : tree.makeDirectories ((Path.parent? path).getD "") = (none, middle))
    (writes : middle.writeText path diagram.write = .ok after) :
    Saving tree path diagram (none, after)

theorem save_saving (tree : FileTree) (path : String) (diagram : Diagram) :
    Saving tree path diagram (save tree path diagram) := by
  rw [save]
  split
  · next e after stops => exact .blocked e after stops
  · next middle makes =>
    split
    · next e fails => exact .refused e middle makes fails
    · next after writes => exact .written middle after makes writes

/-- Whether it succeeds or fails, saving changes at most what stands where the path leads and adds
directories on the way there. -/
theorem save_effect {tree : FileTree} (plain : tree.LinkFree) (path : String) (diagram : Diagram) :
    ((save tree path diagram).1 = none →
        tree.SavedAt (save tree path diagram).2 path diagram.write.toUTF8) ∧
      ((save tree path diagram).1 ≠ none →
        tree.Grows (save tree path diagram).2 (tree.Paves path)) := by
  have paved := makeDirectories_paves plain path
  have ended := save_saving tree path diagram
  generalize save tree path diagram = result at ended ⊢
  cases ended with
  | blocked e after stops =>
    rw [stops] at paved
    exact ⟨nofun, fun _ => paved⟩
  | refused e after makes fails =>
    rw [makes] at paved
    exact ⟨nofun, fun _ => paved⟩
  | written middle after makes writes =>
    rw [makes] at paved
    exact ⟨fun _ => (writeText_savedAt paved.linkFree writes).behind paved, fun fails => absurd rfl fails⟩

theorem save_plain {tree : FileTree} (plain : tree.LinkFree) (path : String) (diagram : Diagram) :
    (save tree path diagram).2.LinkFree ∧ (save tree path diagram).2.here = tree.here := by
  obtain ⟨written, paved⟩ := save_effect plain path diagram
  by_cases done : (save tree path diagram).1 = none
  · exact ⟨(written done).linkFree, (written done).here⟩
  · exact ⟨(paved done).linkFree, (paved done).le.1⟩

/-- What is seen elsewhere than where a diagram is saved is still seen, and so are directories. -/
theorem view?_saved {tree : FileTree} (plain : tree.LinkFree) (path : String) (diagram : Diagram)
    {base : String} {location : Location} {entry : Entry}
    (seen : tree.view? base = some (location, entry))
    (other : entry = .directory ∨ location ≠ tree.destination path) :
    (save tree path diagram).2.view? base = some (location, entry) := by
  have paved := makeDirectories_paves plain path
  have ended := save_saving tree path diagram
  generalize save tree path diagram = result at ended ⊢
  cases ended with
  | blocked e after stops =>
    rw [stops] at paved
    exact view?_mono paved.le seen
  | refused e after makes fails =>
    rw [makes] at paved
    exact view?_mono paved.le seen
  | written middle after makes writes =>
    rw [makes] at paved
    refine view?_written writes (view?_mono paved.le seen) (other.imp id fun apart same => apart ?_)
    have here := locate_destination paved.linkFree ((view?_eq_some_iff middle path _ _).1 same)
    exact here.trans (destination_of_le paved.le path)

theorem entry?_saved_iff {tree : FileTree} (plain : tree.LinkFree) (path : String)
    (diagram : Diagram) {location : Location}
    (other : (save tree path diagram).1 = none → location ≠ tree.destination path)
    (contents : ByteArray) :
    FileTree.entry? (save tree path diagram).2 location = some (.file contents) ↔
      tree.entry? location = some (.file contents) := by
  obtain ⟨written, paved⟩ := save_effect plain path diagram
  by_cases done : (save tree path diagram).1 = none
  · rcases (written done).other location (other done) with kept | ⟨absent, entry, new, kind, -⟩
    · rw [kept]
    · simp [absent, new, kind]
  · have grows := paved done
    refine ⟨fun found => ?_, grows.le.2 _ _⟩
    rcases new_or_kept grows.le found with fresh | held
    · cases (grows.new location _ found fresh).1
    · exact held

theorem Saving.save_eq {tree : FileTree} {path : String} {diagram : Diagram}
    {result : Option Failure × FileTree} (ended : Saving tree path diagram result) :
    save tree path diagram = result := by
  cases ended with
  | blocked e after stops => rw [save, stops]
  | refused e after makes fails =>
    rw [save, makes]
    simp only [fails]
  | written middle after makes writes =>
    rw [save, makes]
    simp only [writes]

/-- A diagram that has been saved is saved again without a change. If it cannot be saved, it cannot be
saved either on the tree that this leaves, for the same reason unless a step upwards leads away from
directories that have been made. -/
theorem save_again (tree : FileTree) (path : String) (diagram : Diagram) :
    ∃ outcome, save (save tree path diagram).2 path diagram =
        (outcome, (save tree path diagram).2) ∧
      (outcome = none ↔ (save tree path diagram).1 = none) ∧
      (outcome ≠ (save tree path diagram).1 →
        (save tree path diagram).1 = some (.file .alreadyExists) ∧ ".." ∈ Path.names path) := by
  have ended := save_saving tree path diagram
  generalize save tree path diagram = result at ended ⊢
  cases ended with
  | blocked e after stops =>
    cases up : Path.parent? path with
    | none =>
      rw [up, Option.getD_none, makeDirectories_blank] at stops
      cases stops
    | some parent =>
      rw [up, Option.getD_some] at stops
      have named : parent ≠ "" := by
        rintro rfl
        cases stops
      obtain ⟨e', again, reason⟩ := makeDirectories_again
        (fun _ => (Path.parent?_tidy up named).imp id And.left) stops
      refine ⟨some (.file e'), (Saving.blocked e' after (by rwa [up])).save_eq, by simp, ?_⟩
      intro other
      obtain ⟨rfl, upwards⟩ := reason fun same => other (by rw [same])
      refine ⟨rfl, ?_⟩
      by_contra level
      exact level_below (Path.parent?_below up named) level upwards
  | refused e after makes fails =>
    have again := (Saving.refused e after (makeDirectories_ready makes id) fails).save_eq
    exact ⟨_, again, Iff.rfl, fun other => absurd rfl other⟩
  | written middle after makes writes =>
    have ready := makeDirectories_ready makes fun directory => by
      obtain ⟨location, seen⟩ := (isDirectory_iff _ _).1 directory
      exact (isDirectory_iff after _).2 ⟨location, view?_written writes seen (.inl rfl)⟩
    have again := (Saving.written after after ready (writeText_again writes)).save_eq
    exact ⟨none, again, Iff.rfl, fun other => absurd rfl other⟩

end Diagram

end SourceAtlas
