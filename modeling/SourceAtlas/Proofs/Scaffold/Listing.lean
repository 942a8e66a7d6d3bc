import SourceAtlas.Proofs.Survey.Scan
import SourceAtlas.Scaffold
set_option autoImplicit false

namespace SourceAtlas.FileTree

variable {tree : FileTree} {settings : Settings} {root extension : String} {base names : Location}

def listed? (extension : String) : Location × Entry → Option Location
  | (names, .file _) =>
    if Text.endsIn (names.getLast?.getD "") ("." ++ extension) then some (listedDirectory :: names)
    else none
  | _ => none

def listedNames (tree : FileTree) (root extension : String) : List Location :=
  (tree.entriesUnder (Path.join root listedDirectory)).filterMap (listed? extension)

theorem listing_eq_map (tree : FileTree) (root extension : String) :
    tree.listing root extension = (tree.listedNames root extension).map ("/".intercalate ·) := by
  rw [listing, listedNames, List.map_filterMap]
  refine List.filterMap_congr fun (names, entry) _ => ?_
  cases entry with
  | file contents =>
    simp only [listed?]
    split <;> rfl
  | directory => rfl
  | link target => rfl

theorem listed?_eq_some_iff {found : Location × Entry} :
    listed? extension found = some names ↔ ∃ rest contents, found = (rest, .file contents) ∧
      names = listedDirectory :: rest ∧
      Text.endsIn (rest.getLast?.getD "") ("." ++ extension) = true := by
  obtain ⟨rest, entry⟩ := found
  cases entry with
  | file contents =>
    rw [listed?]
    split
    · next ends =>
      constructor
      · intro here
        exact ⟨rest, contents, rfl, (Option.some.inj here).symm, ends⟩
      · rintro ⟨other, _, same, rfl, -⟩
        rw [(Prod.mk.inj same).1]
    · next ends =>
      simp only [reduceCtorEq, false_iff]
      rintro ⟨other, _, same, -, ends'⟩
      rw [(Prod.mk.inj same).1] at ends
      exact ends ends'
  | directory => simp [listed?]
  | link target => simp [listed?]

theorem mem_listedNames_iff : names ∈ tree.listedNames root extension ↔
    ∃ base rest contents, tree.view? (Path.join root listedDirectory) = some (base, .directory) ∧
      names = listedDirectory :: rest ∧ rest ≠ [] ∧
      tree.entry? (base ++ rest) = some (.file contents) ∧
      opens (Path.join root listedDirectory) rest.dropLast = true ∧
      Text.endsIn (rest.getLast?.getD "") ("." ++ extension) = true := by
  rw [listedNames, List.mem_filterMap]
  constructor
  · rintro ⟨found, mem, here⟩
    obtain ⟨rest, contents, rfl, rfl, ends⟩ := listed?_eq_some_iff.1 here
    obtain ⟨base, seen⟩ := exists_view?_of_mem mem
    obtain ⟨visible, stands, opened⟩ := (mem_entriesUnder_iff seen ..).1 mem
    exact ⟨base, rest, contents, seen, rfl, visible, stands, opened, ends⟩
  · rintro ⟨base, rest, contents, seen, rfl, visible, stands, opened, ends⟩
    exact ⟨_, (mem_entriesUnder_iff seen ..).2 ⟨visible, stands, opened⟩,
      listed?_eq_some_iff.2 ⟨rest, contents, rfl, rfl, ends⟩⟩

theorem listedNames_ordered (tree : FileTree) (root extension : String) :
    (tree.listedNames root extension).Pairwise (· < ·) := by
  rw [listedNames, List.pairwise_filterMap]
  refine (entriesUnder_ordered tree _).imp fun {first second} before => ?_
  intro a ha b hb
  obtain ⟨rest, _, rfl, rfl, -⟩ := listed?_eq_some_iff.1 ha
  obtain ⟨rest', _, rfl, rfl, -⟩ := listed?_eq_some_iff.1 hb
  exact List.cons_lt_cons_iff.2 (.inr ⟨rfl, before⟩)

theorem listedDirectory_proper : isProperName listedDirectory = true := by decide

theorem pieces_listed (mem : names ∈ tree.listedNames root extension) :
    Path.pieces ("/".intercalate names) = names := by
  obtain ⟨base, rest, contents, -, rfl, visible, stands, -⟩ := mem_listedNames_iff.1 mem
  have proper := entry?_isProperName stands
  refine Path.pieces_relative (List.cons_ne_nil _ _) (List.forall_mem_cons.2 ⟨?_, fun name mem => ?_⟩)
  · exact listedDirectory_proper
  · exact List.all_eq_true.1 proper name (List.mem_append_right _ mem)

theorem map_pieces_listing (tree : FileTree) (root extension : String) :
    (tree.listing root extension).map Path.pieces = tree.listedNames root extension := by
  rw [listing_eq_map, List.map_map]
  exact (List.map_congr_left fun names mem => pieces_listed mem).trans (List.map_id _)

/-- The paths of the source files that a scan without excluded directories finds in `src`. -/
def scannedInside (tree : FileTree) (settings : Settings) (root : String) : List String :=
  ((tree.sourceFiles { settings with excluded := [] } root).map SourceFile.relPath).filter
    fun path => (Path.pieces path).head? = some listedDirectory

/-- Whether an entry below a root is in `src` and is a source file, or a link to a file that has such
a name. -/
def IsScanned (tree : FileTree) (settings : Settings) (root : String) (names : Location)
    (entry : Entry) : Prop :=
  names.head? = some listedDirectory ∧ tree.isCandidate (pathBelow root names) entry = true ∧
    Text.endsIn (names.getLast?.getD "") settings.suffix = true

instance (entry : Entry) : Decidable (tree.IsScanned settings root names entry) :=
  inferInstanceAs (Decidable (_ ∧ _ ∧ _))

def scannedNames (tree : FileTree) (settings : Settings) (root : String) : List Location :=
  ((tree.entriesUnder root).filter fun found =>
    tree.IsScanned settings root found.1 found.2).map Prod.fst

theorem scannedInside_eq_map (directory : tree.view? root = some (base, .directory)) :
    tree.scannedInside settings root =
      (tree.scannedNames settings root).map ("/".intercalate ·) := by
  have isDirectory := (isDirectory_iff tree root).2 ⟨base, directory⟩
  rw [scannedInside, scannedNames, sourceFiles_of_isDirectory isDirectory, List.map_filterMap,
    List.filter_filterMap, List.map_map, ← List.filterMap_eq_map, List.filterMap_filter]
  refine List.filterMap_congr ?_
  rintro ⟨names, entry⟩ mem
  obtain ⟨visible, proper⟩ := mem_entriesUnder mem
  have shown := Path.pieces_relative visible proper
  have free : ({ settings with excluded := [] } : Settings).reaches names = true := by
    simp [Settings.reaches]
  have same : ({ settings with excluded := [] } : Settings).suffix = settings.suffix := rfl
  simp only [sourceFile?, free, same, Bool.true_and, IsScanned, Function.comp_apply]
  by_cases found : tree.isCandidate (pathBelow root names) entry = true ∧
      Text.endsIn (names.getLast?.getD "") settings.suffix = true
  · simp [found, shown, Option.filter]
  · simp [found]

theorem scannedNames_ordered (tree : FileTree) (settings : Settings) (root : String) :
    (tree.scannedNames settings root).Pairwise (· < ·) := by
  rw [scannedNames, List.pairwise_map]
  exact (entriesUnder_ordered tree root).filter _

theorem mem_scannedNames_iff (directory : tree.view? root = some (base, .directory)) :
    names ∈ tree.scannedNames settings root ↔
      ∃ entry, names ≠ [] ∧ tree.entry? (base ++ names) = some entry ∧
        opens root names.dropLast = true ∧ tree.IsScanned settings root names entry := by
  simp [scannedNames, mem_entriesUnder_iff directory, and_assoc]

theorem map_pieces_scannedInside (directory : tree.view? root = some (base, .directory)) :
    (tree.scannedInside settings root).map Path.pieces = tree.scannedNames settings root := by
  rw [scannedInside_eq_map directory, List.map_map]
  refine (List.map_congr_left fun names mem => ?_).trans (List.map_id _)
  obtain ⟨found, held, rfl⟩ := List.mem_map.1 mem
  obtain ⟨visible, proper⟩ := mem_entriesUnder (List.mem_filter.1 held).1
  exact Path.pieces_relative visible proper

theorem listing_eq_iff_names (directory : tree.view? root = some (base, .directory)) :
    tree.listing root settings.extension = tree.scannedInside settings root ↔
      ∀ names, names ∈ tree.listedNames root settings.extension ↔
        names ∈ tree.scannedNames settings root := by
  constructor
  · intro same names
    rw [← map_pieces_listing, same, map_pieces_scannedInside directory]
  · intro same
    have equal : tree.listedNames root settings.extension = tree.scannedNames settings root :=
      eq_of_ordered (· < ·) (fun names => List.lt_irrefl names) (fun _ _ _ low high => List.lt_trans low high)
        (listedNames_ordered ..) (scannedNames_ordered ..) same
    rw [listing_eq_map, equal, scannedInside_eq_map directory]

theorem endsIn_listedDirectory (extension : String) :
    Text.endsIn listedDirectory ("." ++ extension) = false := by
  rw [← Bool.not_eq_true, Text.endsIn, List.isSuffixOf_iff_suffix]
  intro ends
  have dot : '.' ∈ listedDirectory.toList := ends.subset (by simp)
  revert dot
  decide

theorem pathBelow_listedDirectory (root : String) :
    pathBelow root [listedDirectory] = Path.join root listedDirectory := by
  rw [pathBelow, String.intercalate_singleton]

theorem view?_listedDirectory (directory : tree.view? root = some (base, .directory))
    (short : (Path.join root listedDirectory).utf8ByteSize < pathLimit)
    (plain : ∀ target, tree.entry? (base ++ [listedDirectory]) ≠ some (.link target)) :
    tree.view? (Path.join root listedDirectory) =
      (tree.entry? (base ++ [listedDirectory])).map fun entry => (base ++ [listedDirectory], entry) := by
  rw [← pathBelow_listedDirectory] at short ⊢
  exact view?_child directory listedDirectory_proper plain short

theorem scanned_inside (directory : tree.view? root = some (base, .directory))
    (mem : names ∈ tree.scannedNames settings root) :
    ∃ rest entry, names = listedDirectory :: rest ∧ rest ≠ [] ∧
      tree.entry? (base ++ [listedDirectory]) = some .directory ∧
      tree.entry? (base ++ [listedDirectory] ++ rest) = some entry ∧
      opens root (listedDirectory :: rest.dropLast) = true ∧
      tree.isCandidate (pathBelow root names) entry = true ∧
      Text.endsIn (rest.getLast?.getD "") settings.suffix = true := by
  obtain ⟨entry, visible, stands, opened, first, candidate, ends⟩ :=
    (mem_scannedNames_iff directory).1 mem
  obtain ⟨name, rest, rfl⟩ := List.exists_cons_of_ne_nil visible
  obtain rfl : name = listedDirectory := by simpa using first
  have inside : rest ≠ [] := by
    rintro rfl
    rw [List.getLast?_singleton, Option.getD_some, Settings.suffix, endsIn_listedDirectory] at ends
    cases ends
  rw [List.append_cons] at stands
  rw [List.dropLast_cons_of_ne_nil inside] at opened
  refine ⟨rest, entry, rfl, inside, entry?_above stands inside, stands, opened, candidate, ?_⟩
  obtain ⟨next, later, rfl⟩ := List.exists_cons_of_ne_nil inside
  rwa [List.getLast?_cons_cons] at ends

theorem not_mem_scannedNames_of_link (directory : tree.view? root = some (base, .directory))
    {target : String}
    (linked : tree.entry? (base ++ [listedDirectory]) = some (.link target)) :
    names ∉ tree.scannedNames settings root := by
  intro mem
  obtain ⟨rest, entry, -, -, inside, -⟩ := scanned_inside directory mem
  rw [linked] at inside
  cases inside

theorem mem_listedNames_iff_of_directory (directory : tree.view? root = some (base, .directory))
    (short : (Path.join root listedDirectory).utf8ByteSize < pathLimit)
    (inside : tree.entry? (base ++ [listedDirectory]) = some .directory) :
    names ∈ tree.listedNames root extension ↔ ∃ rest contents, names = listedDirectory :: rest ∧
      rest ≠ [] ∧ tree.entry? (base ++ [listedDirectory] ++ rest) = some (.file contents) ∧
      opens (Path.join root listedDirectory) rest.dropLast = true ∧
      Text.endsIn (rest.getLast?.getD "") ("." ++ extension) = true := by
  have seen := view?_listedDirectory directory short (by simp [inside])
  rw [inside, Option.map_some] at seen
  rw [mem_listedNames_iff, seen]
  simp

/-- What it takes for the files below `src` to be listed as they are scanned. -/
structure ListsAsScanned (tree : FileTree) (settings : Settings) (root : String) (base : Location) :
    Prop where
  /-- No link in a directory in `src` that can be opened leads to a file and has a name that ends in
  the extension. -/
  noLink : ∀ names target,
    tree.entry? (base ++ [listedDirectory] ++ names) = some (.link target) → names ≠ [] →
      opens root (listedDirectory :: names.dropLast) = true →
        Text.endsIn (names.getLast?.getD "") settings.suffix = true →
          tree.isFile (pathBelow root (listedDirectory :: names)) = false
  /-- If `src` is a link itself, nothing is listed behind it. -/
  notLinked : ∀ target, tree.entry? (base ++ [listedDirectory]) = some (.link target) →
    tree.listing root settings.extension = []

theorem short_of_mem_listedNames (mem : names ∈ tree.listedNames root extension) :
    (Path.join root listedDirectory).utf8ByteSize < pathLimit := by
  obtain ⟨base, _, _, seen, -⟩ := mem_listedNames_iff.1 mem
  exact Nat.not_le.1 (fits_of_locate ((view?_eq_some_iff ..).1 seen)).2.2

theorem listing_eq_nil_iff : tree.listing root extension = [] ↔
    ∀ names, names ∉ tree.listedNames root extension := by
  rw [listing_eq_map, List.map_eq_nil_iff, List.eq_nil_iff_forall_not_mem]

theorem opens_listedDirectory {entry : Entry}
    (stands : tree.entry? (base ++ [listedDirectory] ++ names) = some entry) :
    opens root (listedDirectory :: names.dropLast) = true ↔
      (Path.join root listedDirectory).utf8ByteSize < pathLimit ∧
        opens (Path.join root listedDirectory) names.dropLast = true := by
  rw [← pathBelow_listedDirectory]
  refine opens_cons root fun part mem => ?_
  have proper := entry?_isProperName stands
  refine List.all_eq_true.1 proper part ?_
  rw [List.append_assoc]
  refine List.mem_append_right _ ?_
  exact (List.mem_cons.1 mem).elim (fun first => first ▸ List.mem_cons_self ..) fun later =>
    List.mem_cons_of_mem _ (List.dropLast_subset _ later)

theorem scanned_of_listed (directory : tree.view? root = some (base, .directory))
    (plain : ∀ target, tree.entry? (base ++ [listedDirectory]) ≠ some (.link target))
    (mem : names ∈ tree.listedNames root settings.extension) :
    names ∈ tree.scannedNames settings root := by
  have short := short_of_mem_listedNames mem
  have seen := view?_listedDirectory directory short plain
  obtain ⟨goal, rest, contents, viewed, rfl, below, stands, opened, ends⟩ :=
    mem_listedNames_iff.1 mem
  rw [seen, Option.map_eq_some_iff] at viewed
  obtain ⟨entry, inside, same⟩ := viewed
  obtain ⟨rfl, rfl⟩ := Prod.mk.inj same
  refine (mem_scannedNames_iff directory).2
    ⟨.file contents, List.cons_ne_nil _ _, ?_, ?_, rfl, rfl, ?_⟩
  · rwa [List.append_cons]
  · rw [List.dropLast_cons_of_ne_nil below]
    exact (opens_listedDirectory stands).2 ⟨short, opened⟩
  · obtain ⟨next, later, rfl⟩ := List.exists_cons_of_ne_nil below
    rwa [List.getLast?_cons_cons]

/-- The files below `src` of a root are listed just as a scan of the root without excluded directories
finds them there exactly if no link takes part: links to files are scanned, but they are not listed,
and what is behind a link in the place of `src` is listed, but it is not scanned. -/
theorem listing_eq_scanned_iff (tree : FileTree) (settings : Settings) (root : String)
    (base : Location) (directory : tree.view? root = some (base, .directory)) :
    tree.listing root settings.extension = tree.scannedInside settings root ↔
      tree.ListsAsScanned settings root base := by
  constructor
  · intro same
    have members := (listing_eq_iff_names directory).1 same
    refine ⟨fun names target found below opened ends => ?_, fun target linked => ?_⟩
    · by_contra file
      have scanned : listedDirectory :: names ∈ tree.scannedNames settings root := by
        refine (mem_scannedNames_iff directory).2
          ⟨.link target, List.cons_ne_nil _ _, ?_, ?_, rfl, ?_, ?_⟩
        · rwa [List.append_cons]
        · rwa [List.dropLast_cons_of_ne_nil below]
        · exact Bool.not_eq_false _ ▸ file
        · obtain ⟨next, later, rfl⟩ := List.exists_cons_of_ne_nil below
          rwa [List.getLast?_cons_cons]
      -- A listed entry is a file and no link.
      have listed := (members _).2 scanned
      obtain ⟨rest, contents, cut, -, stands, -⟩ := (mem_listedNames_iff_of_directory directory
        (short_of_mem_listedNames listed) (entry?_above found below)).1 listed
      rw [← (List.cons.inj cut).2, found] at stands
      cases stands
    · exact listing_eq_nil_iff.2 fun names mem =>
        not_mem_scannedNames_of_link directory linked ((members names).1 mem)
  · intro agree
    refine (listing_eq_iff_names directory).2 fun names => ⟨fun mem => ?_, fun mem => ?_⟩
    · refine scanned_of_listed directory (fun target linked => ?_) mem
      exact listing_eq_nil_iff.1 (agree.notLinked target linked) names mem
    · obtain ⟨rest, entry, rfl, below, inside, stands, opened, candidate, ends⟩ :=
        scanned_inside directory mem
      obtain ⟨short, opened'⟩ := (opens_listedDirectory stands).1 opened
      refine (mem_listedNames_iff_of_directory directory short inside).2 ?_
      cases entry with
      | file contents => exact ⟨rest, contents, rfl, below, stands, opened', ends⟩
      | directory => cases candidate
      | link target =>
        have lost := agree.noLink rest target stands below opened ends
        rw [isCandidate, lost] at candidate
        cases candidate

/-- A link to a directory is neither listed nor scanned, whatever its name ends in. -/
theorem listing_eq_scanned_linked_directory :
    let tree := (((empty.add ["src"] .directory).add ["src", "pkg"] .directory).add
      ["src", "pkg", "b.py"] (.file .empty)).add ["src", "p.py"] (.link "pkg")
    tree.view? "." = some ([], .directory) ∧
      tree.listing "." Settings.standard.extension = ["src/pkg/b.py"] ∧
      tree.ListsAsScanned Settings.standard "." [] := by
  intro tree
  have directory : tree.view? "." = some ([], .directory) := by decide +kernel
  have same : tree.listing "." Settings.standard.extension =
      tree.scannedInside Settings.standard "." := by decide +kernel
  exact ⟨directory, by decide +kernel, (listing_eq_scanned_iff tree _ _ _ directory).1 same⟩

/-- A link to a file is scanned, but it is not listed. -/
theorem linked_file_unlisted :
    let tree := ((empty.add ["src"] .directory).add ["src", "a.py"] (.file .empty)).add
      ["src", "l.py"] (.link "a.py")
    tree.isDirectory "." = true ∧
      tree.scannedInside Settings.standard "." = ["src/a.py", "src/l.py"] ∧
      tree.listing "." Settings.standard.extension ≠ tree.scannedInside Settings.standard "." := by
  decide +kernel

end SourceAtlas.FileTree
