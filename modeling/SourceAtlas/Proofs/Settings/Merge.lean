import Mathlib.Data.List.Induction
import SourceAtlas.Settings.Reader
import SourceAtlas.Survey.Report
set_option autoImplicit false

/-!
# Wishes laid over settings

A user's wishes may be refused, and what was done before the refusal stays. Nevertheless the settings
after any number of them have a closed form, and so have the answers: a wish is granted unless its
style is unknown or something is wrong with the settings that it leads to, which may be the fault of
an earlier wish.
-/

namespace SourceAtlas

namespace Settings

/-- Settings with wishes laid over them one after the other, whether they are granted or not. -/
def mergeAll (settings : Settings) (calls : List Wishes) : Settings :=
  calls.foldl (fun settings wishes => (settings.merge wishes).2) settings

theorem foldl_exclude (settings : Settings) (names : List String) :
    names.foldl exclude settings = { settings with
      excluded := settings.excluded ++
        (names.filter fun name => !settings.excluded.contains name).eraseDups } := by
  induction names generalizing settings with
  | nil => simp
  | cons name names ih =>
    rw [List.foldl_cons, ih, exclude]
    by_cases known : settings.excluded.contains name = true
    · rw [if_pos known, List.filter_cons_of_neg (by simpa using known)]
    · rw [if_neg known, List.filter_cons_of_pos (by simpa using known), List.eraseDups_cons,
        List.filter_filter]
      have later : ∀ other, (!(settings.excluded ++ [name]).contains other) =
          ((!other == name) && !settings.excluded.contains other) := by
        intro other
        simp [Bool.and_comm, beq_eq_decide]
      simp only [later, List.append_assoc, List.singleton_append]

def wishedStyle? (wishes : Wishes) : Option Style :=
  wishes.style.bind Style.ofUserName?

theorem merge_snd (settings : Settings) (wishes : Wishes) :
    (settings.merge wishes).2 = { wishes.excluded.foldl exclude settings with
      style := (wishedStyle? wishes).getD settings.style
      output := wishes.output.getD settings.output } := by
  rw [foldl_exclude]
  unfold merge wishedStyle?
  cases wishes.style with
  | none => simp only [foldl_exclude, Option.bind_none, Option.getD_none]
  | some name =>
    cases found : Style.ofUserName? name with
    | none => simp only [found, foldl_exclude, Option.bind_some, Option.getD_none]
    | some style => simp only [found, foldl_exclude, Option.bind_some, Option.getD_some]

/-- Wishes are granted if their style is known, if they name one, and nothing is wrong with what they
lead to. -/
theorem merge_fst_eq_ok_iff (settings : Settings) (wishes : Wishes) :
    (settings.merge wishes).1 = .ok () ↔
      (∀ name, wishes.style = some name → (Style.ofUserName? name).isSome = true) ∧
        (settings.merge wishes).2.validate = .ok () := by
  unfold merge
  cases wishes.style with
  | none => simp
  | some name => cases found : Style.ofUserName? name <;> simp [found]

theorem foldl_getD {α β : Type} (given : α → Option β) (calls : List α) (first : β) :
    calls.foldl (fun value call => (given call).getD value) first =
      (calls.filterMap given).getLast?.getD first := by
  induction calls using List.reverseRecOn with
  | nil => rfl
  | append_singleton calls call ih =>
    rw [List.foldl_append, List.foldl_cons, List.foldl_nil, ih, List.filterMap_append]
    cases found : given call with
    | none => simp [found]
    | some value => simp [found]

theorem mergeAll_concat (settings : Settings) (calls : List Wishes) (wishes : Wishes) :
    mergeAll settings (calls ++ [wishes]) = ((mergeAll settings calls).merge wishes).2 := by
  rw [mergeAll, List.foldl_append]
  rfl

theorem mergeAll_eq_foldl (settings : Settings) (calls : List Wishes) :
    mergeAll settings calls = { (calls.flatMap Wishes.excluded).foldl exclude settings with
      style := calls.foldl (fun style wishes => (wishedStyle? wishes).getD style) settings.style
      output := calls.foldl (fun output wishes => wishes.output.getD output) settings.output } := by
  induction calls using List.reverseRecOn with
  | nil => rfl
  | append_singleton calls wishes ih =>
    rw [mergeAll_concat, merge_snd, ih, List.flatMap_append, List.flatMap_singleton,
      List.foldl_append, List.foldl_append, List.foldl_append]
    simp only [foldl_exclude, List.foldl_cons, List.foldl_nil]

/-- The settings after all calls: the last output that was given, the last style that was known, and
behind the directories that were excluded before every other name at its first place. -/
theorem mergeAll_eq (settings : Settings) (calls : List Wishes) : mergeAll settings calls =
    { excluded := settings.excluded ++
        ((calls.flatMap Wishes.excluded).filter fun name =>
          !settings.excluded.contains name).eraseDups
      extension := settings.extension
      entryFile := settings.entryFile
      style := (calls.filterMap wishedStyle?).getLast?.getD settings.style
      output := (calls.filterMap Wishes.output).getLast?.getD settings.output } := by
  rw [mergeAll_eq_foldl, foldl_exclude, foldl_getD, foldl_getD]

theorem validate_eq_ok_iff (settings : Settings) :
    settings.validate = .ok () ↔ settings.fault? = none := by
  rw [validate]
  cases settings.fault? <;> simp

theorem fault?_eq_none_iff (settings : Settings) : settings.fault? = none ↔
    (settings.extension ≠ "" ∧ settings.extension.toList.head? ≠ some '.' ∧
      settings.entryFile ≠ "") ∧ ∀ name ∈ settings.excluded, exclusionFault? name = none := by
  rw [← List.findSome?_eq_none_iff]
  unfold fault?
  by_cases empty : settings.extension = ""
  · simp [empty]
  by_cases dotted : settings.extension.toList.head? = some '.'
  · simp [empty, dotted]
  cases settings.excluded.findSome? exclusionFault? with
  | some fault => simp [empty, dotted]
  | none => by_cases nameless : settings.entryFile = "" <;> simp [empty, dotted, nameless]

theorem mergeAll_valid_iff (settings : Settings) (calls : List Wishes) :
    (mergeAll settings calls).validate = .ok () ↔ settings.validate = .ok () ∧
      ∀ wishes ∈ calls, ∀ name ∈ wishes.excluded, exclusionFault? name = none := by
  have names : (∀ name ∈ (mergeAll settings calls).excluded, exclusionFault? name = none) ↔
      (∀ name ∈ settings.excluded, exclusionFault? name = none) ∧
        ∀ wishes ∈ calls, ∀ name ∈ wishes.excluded, exclusionFault? name = none := by
    simp only [mergeAll_eq, List.mem_append, List.mem_eraseDups, List.mem_filter, List.mem_flatMap]
    constructor
    · intro clean
      refine ⟨fun name known => clean name (.inl known), fun wishes called name listed => ?_⟩
      by_cases known : name ∈ settings.excluded
      · exact clean name (.inl known)
      · exact clean name (.inr ⟨⟨wishes, called, listed⟩, by simpa using known⟩)
    · rintro ⟨before, given⟩ name (known | ⟨⟨wishes, called, listed⟩, -⟩)
      · exact before name known
      · exact given wishes called name listed
  rw [validate_eq_ok_iff, validate_eq_ok_iff, fault?_eq_none_iff, fault?_eq_none_iff, names, mergeAll_eq]
  exact and_assoc.symm

theorem read_valid {text : String} {settings : Settings} (found : read text = .ok settings) :
    settings.validate = .ok () := by
  unfold read at found
  cases parsed : (Toml.read text).bind ofToml? with
  | none => simp [parsed] at found
  | some made =>
    cases valid : made.validate with
    | error failure => simp [parsed, valid, bind, Except.bind] at found
    | ok =>
      simp [parsed, valid, bind, Except.bind] at found
      rw [← found, valid]

theorem load_valid {tree : FileTree} {path : String} {settings : Settings}
    (loaded : load tree path = .ok settings) : settings.validate = .ok () := by
  unfold load at loaded
  cases contents : tree.readText path with
  | error error => simp [contents] at loaded
  | ok text =>
    rw [contents] at loaded
    exact read_valid loaded

theorem standard_valid : standard.validate = .ok () := by
  decide +kernel

theorem loadOrStandard_valid (tree : FileTree) (path : String) :
    (loadOrStandard tree path).validate = .ok () := by
  unfold loadOrStandard
  cases loaded : load tree path with
  | error failure => exact standard_valid
  | ok settings => exact load_valid loaded

theorem run_ne_settings [Python.Parser] {settings : Settings} (valid : settings.validate = .ok ())
    (tree : FileTree) (root : String) (fault : SettingsFault) :
    Survey.run tree settings root ≠ .error (.settings fault) := by
  unfold Survey.run
  rw [valid]
  by_cases directory : tree.isDirectory root = true
  · simp [directory, bind, Except.bind]
  · simp [directory, bind, Except.bind]

/-- After any calls, granted or refused, settings are told by what was asked for. A call is granted
just when its style is known, if it names one, and nothing is wrong with the settings that it leads
to; a survey does not refuse these then. And nothing is wrong with the settings that a run starts
from, whatever their file holds. -/
theorem mergeAll_told (settings : Settings) (calls : List Wishes) :
    mergeAll settings calls =
      { excluded := settings.excluded ++
          ((calls.flatMap Wishes.excluded).filter fun name =>
            !settings.excluded.contains name).eraseDups
        extension := settings.extension
        entryFile := settings.entryFile
        style := (calls.filterMap wishedStyle?).getLast?.getD settings.style
        output := (calls.filterMap Wishes.output).getLast?.getD settings.output } ∧
    (∀ wishes, ((mergeAll settings calls).merge wishes).1 = .ok () ↔
      (∀ name, wishes.style = some name → (Style.ofUserName? name).isSome = true) ∧
        ((mergeAll settings calls).merge wishes).2.validate = .ok ()) ∧
    (∀ wishes, ((mergeAll settings calls).merge wishes).1 = .ok () →
      ∀ [Python.Parser] tree root fault,
      Survey.run tree ((mergeAll settings calls).merge wishes).2 root ≠ .error (.settings fault)) ∧
    ∀ tree path, (loadOrStandard tree path).validate = .ok () := by
  refine ⟨mergeAll_eq settings calls, merge_fst_eq_ok_iff _, fun wishes granted => ?_,
    loadOrStandard_valid⟩
  obtain ⟨-, valid⟩ := (merge_fst_eq_ok_iff _ wishes).1 granted
  exact run_ne_settings valid

/-- Behind a call that is refused for its style but leaves an output and a name, and with a name that
was there twice before. -/
theorem mergeAll_told_refused :
    let settings := { Settings.standard with excluded := ["venv", "venv"] }
    let calls : List Wishes := [⟨some "a.canvas", ["x", "venv", "x"], some "radial"⟩,
      ⟨none, ["y", "x"], some "GRID"⟩]
    let wishes : Wishes := ⟨none, ["z"], some "Layers"⟩
    ((settings.merge calls[0]).1 = .error (.settings (.unknownStyle "radial")) ∧
      ((mergeAll settings calls).merge wishes).1 = .ok ()) ∧
    mergeAll settings calls = ⟨["venv", "venv", "x", "y"], "py", "app.py", .grid, "a.canvas"⟩ ∧
    ∀ [Python.Parser] tree root fault,
      Survey.run tree ((mergeAll settings calls).merge wishes).2 root ≠ .error (.settings fault) := by
  intro settings calls wishes
  have granted : ((mergeAll settings calls).merge wishes).1 = .ok () := by decide +kernel
  obtain ⟨closed, -, surveyed, -⟩ := mergeAll_told settings calls
  refine ⟨⟨by decide +kernel, granted⟩, closed.trans ?_, surveyed wishes granted⟩
  decide +kernel

end Settings

end SourceAtlas
