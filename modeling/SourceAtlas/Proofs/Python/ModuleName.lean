import SourceAtlas.Proofs.Survey.Resolution
import SourceAtlas.Proofs.Text.Ink
import SourceAtlas.Text.Identifier
set_option autoImplicit false

namespace SourceAtlas.Python

open SourceAtlas.Text

def isUnseen (c : Char) : Bool :=
  c == '\ufeff' || c == '\u200b' || c == '\u2060'

/-- What may stand between the tokens of a name: blanks and marks of no width, line ends behind a
backslash, for which a NUL can stand, and comments up to the end of their line. -/
inductive IsGap : List Char → Prop
  | nil : IsGap []
  | blank {c : Char} {cs : List Char} (blank : isBlank c = true) (rest : IsGap cs) : IsGap (c :: cs)
  | unseen {c : Char} {cs : List Char} (unseen : isUnseen c = true) (rest : IsGap cs) :
      IsGap (c :: cs)
  | continued {ending cs : List Char} (ends : ending = ['\n'] ∨ ending = ['\r', '\n'] ∨ ending = ['\x00'])
      (rest : IsGap cs) : IsGap ('\\' :: (ending ++ cs))
  | comment {text cs : List Char} (line : '\n' ∉ text) (rest : IsGap cs) : IsGap ('#' :: (text ++ cs))

def IsIdentifier (name : String) : Prop :=
  ∃ first rest, name.toList = first :: rest ∧ isIdentifierStart first = true ∧
    ∀ c ∈ rest, isIdentifierContinue c = true

/-- Identifiers with single points between them. -/
def IsModuleName (name : String) : Prop :=
  ∃ parts : List String, parts ≠ [] ∧ (∀ part ∈ parts, IsIdentifier part) ∧
    name = ".".intercalate parts

inductive Spells : List String → List Char → Prop
  | one (part : String) : Spells [part] part.toList
  | next (part : String) {parts : List String} {before behind written : List Char}
      (front : IsGap before) (back : IsGap behind) (rest : Spells parts written) :
      Spells (part :: parts) (part.toList ++ before ++ '.' :: (behind ++ written))

/-- A dotted name: its parts, and how it is written. -/
structure DottedName where
  parts : List String
  written : List Char
  identifiers : ∀ part ∈ parts, IsIdentifier part
  spells : Spells parts written

/-- Characters that show where a gap holds something else than blanks. -/
def isStray (c : Char) : Bool :=
  c == '\\' || c == '#' || isUnseen c

namespace DottedName

def meant (name : DottedName) : String :=
  ".".intercalate name.parts

def recorded (name : DottedName) : String :=
  String.ofList (ink name.written)

def IsPlain (name : DottedName) : Prop :=
  ∀ c ∈ name.written, isStray c = false

end DottedName

theorem isStray_of_isBlank {c : Char} (blank : isBlank c = true) : isStray c = false := by
  cases stray : isStray c with
  | false => rfl
  | true =>
    simp only [isStray, isUnseen, Bool.or_eq_true, beq_iff_eq] at stray
    rcases stray with (rfl | rfl) | (rfl | rfl) | rfl <;> cases blank

def blankCodes : List Nat :=
  List.range' 9 5 ++ [0x20, 0x85, 0xA0, 0x1680] ++ List.range' 0x2000 11 ++
    [0x2028, 0x2029, 0x202F, 0x205F, 0x3000]

theorem toNat_mem_blankCodes {c : Char} (blank : isBlank c = true) : c.toNat ∈ blankCodes := by
  simp only [isBlank, Bool.or_eq_true, Bool.and_eq_true, decide_eq_true_eq, beq_iff_eq] at blank
  simp only [blankCodes, List.mem_append, List.mem_range'_1, List.mem_cons, List.not_mem_nil]
  omega

theorem visible_of_isIdentifierContinue {c : Char} (continues : isIdentifierContinue c = true) :
    isBlank c = false ∧ isStray c = false := by
  have blanks : ∀ code ∈ blankCodes, isIdentifierContinue (Char.ofNat code) = false := by
    decide +kernel
  constructor
  · cases blank : isBlank c with
    | false => rfl
    | true =>
      have stops := blanks c.toNat (toNat_mem_blankCodes blank)
      rw [Char.ofNat_toNat, continues] at stops
      cases stops
  · cases stray : isStray c with
    | false => rfl
    | true =>
      simp only [isStray, isUnseen, Bool.or_eq_true, beq_iff_eq] at stray
      rcases stray with (rfl | rfl) | (rfl | rfl) | rfl <;>
        exact absurd continues (by decide +kernel)

theorem IsIdentifier.visible {name : String} (identifier : IsIdentifier name) :
    ∀ c ∈ name.toList, isBlank c = false ∧ isStray c = false := by
  obtain ⟨first, rest, whole, starts, continues⟩ := identifier
  rw [whole]
  refine List.forall_mem_cons.2 ⟨?_, fun c mem => visible_of_isIdentifierContinue (continues c mem)⟩
  exact visible_of_isIdentifierContinue (isIdentifierContinue_of_start first starts)

theorem IsIdentifier.ne_nil {name : String} (identifier : IsIdentifier name) :
    name.toList ≠ [] := by
  obtain ⟨first, rest, whole, -⟩ := identifier
  rw [whole]
  exact List.cons_ne_nil _ _

theorem intercalate_cons_toList (part : String) {parts : List String} (later : parts ≠ []) :
    (".".intercalate (part :: parts)).toList =
      part.toList ++ '.' :: (".".intercalate parts).toList := by
  rw [String.intercalate_cons_of_ne_nil later]
  simp

theorem IsModuleName.visible {name : String} (isName : IsModuleName name) :
    ∀ c ∈ name.toList, isBlank c = false ∧ isStray c = false := by
  obtain ⟨parts, -, identifiers, rfl⟩ := isName
  induction parts with
  | nil => nofun
  | cons part parts ih =>
    have here := (identifiers part (List.mem_cons_self ..)).visible
    have below := ih fun other listed => identifiers other (List.mem_cons_of_mem _ listed)
    by_cases last : parts = []
    · simpa [last] using here
    intro c mem
    rw [intercalate_cons_toList part last, List.mem_append, List.mem_cons] at mem
    rcases mem with mem | rfl | mem
    · exact here c mem
    · decide
    · exact below c mem

theorem ink_of_visible {cs : List Char} (visible : ∀ c ∈ cs, isBlank c = false) : ink cs = cs :=
  List.filter_eq_self.2 fun c mem => by rw [visible c mem]; rfl

/-- What is left of a gap without its blanks begins with a stray character, if anything is left. -/
theorem IsGap.ink {gap : List Char} (isGap : IsGap gap) :
    (Text.ink gap = [] ∧ ∀ c ∈ gap, isStray c = false) ∨
      ∃ c rest, Text.ink gap = c :: rest ∧ isStray c = true := by
  have opens (c : Char) (cs : List Char) (visible : isBlank c = false) (stray : isStray c = true) :
      ∃ d rest, Text.ink (c :: cs) = d :: rest ∧ isStray d = true :=
    ⟨c, _, ink_cons_visible visible cs, stray⟩
  cases isGap with
  | nil => exact .inl ⟨rfl, nofun⟩
  | @blank c cs blank rest =>
    rw [ink_cons_blank blank]
    refine rest.ink.imp (fun clean => ⟨clean.1, ?_⟩) id
    exact List.forall_mem_cons.2 ⟨isStray_of_isBlank blank, clean.2⟩
  | @unseen c cs unseen rest =>
    have stray : isStray c = true := by rw [isStray, unseen, Bool.or_true]
    refine .inr (opens c cs ?_ stray)
    by_contra blank
    rw [isStray_of_isBlank (Bool.not_eq_false _ ▸ blank)] at stray
    cases stray
  | continued ends rest => exact .inr (opens _ _ (by decide) (by decide))
  | comment line rest => exact .inr (opens _ _ (by decide) (by decide))

theorem Spells.ne_nil {parts : List String} {written : List Char} (spells : Spells parts written) :
    parts ≠ [] := by
  cases spells <;> exact List.cons_ne_nil _ _

/-- What is recorded begins with what is meant only if there is nothing but blanks in the gaps. -/
theorem Spells.plain_of_prefix {parts : List String} {written : List Char}
    (spells : Spells parts written) (identifiers : ∀ part ∈ parts, IsIdentifier part)
    (begins : (".".intercalate parts).toList <+: ink written) :
    ∀ c ∈ written, isStray c = false := by
  induction spells with
  | one part =>
    exact fun c mem => ((identifiers part (List.mem_singleton_self part)).visible c mem).2
  | @next part parts before behind written front back rest ih =>
    have here := (identifiers part (List.mem_cons_self ..)).visible
    have later : ∀ part ∈ parts, IsIdentifier part := fun other listed =>
      identifiers other (List.mem_cons_of_mem _ listed)
    have point : ink ('.' :: (behind ++ written)) = '.' :: (ink behind ++ ink written) := by
      rw [ink_cons_visible (by decide), ink_append]
    rw [intercalate_cons_toList part rest.ne_nil, ink_append, ink_append, point,
      ink_of_visible fun c mem => (here c mem).1, List.append_assoc, List.prefix_append_right_inj]
      at begins
    obtain ⟨unspoken, clean⟩ | ⟨c, _, spoken, stray⟩ := front.ink
    swap
    · rw [spoken, List.cons_append, List.cons_prefix_cons] at begins
      rw [← begins.1] at stray
      cases stray
    rw [unspoken, List.nil_append, List.cons_prefix_cons] at begins
    have meant : IsModuleName (".".intercalate parts) := ⟨parts, rest.ne_nil, later, rfl⟩
    obtain ⟨unspoken', clean'⟩ | ⟨c, _, spoken, stray⟩ := back.ink
    swap
    · -- The name goes on with an identifier where a stray character is recorded.
      obtain ⟨next, others, rfl⟩ := List.exists_cons_of_ne_nil rest.ne_nil
      obtain ⟨first, tail, whole, -⟩ := later next (List.mem_cons_self ..)
      obtain ⟨text, same⟩ : ∃ text, (".".intercalate (next :: others)).toList = first :: text := by
        by_cases last : others = []
        · exact ⟨tail, by simp [last, whole]⟩
        · exact ⟨_, by rw [intercalate_cons_toList next last, whole, List.cons_append]⟩
      have seen := (meant.visible first (by rw [same]; exact List.mem_cons_self ..)).2
      rw [spoken, same, List.cons_append, List.cons_prefix_cons] at begins
      rw [← begins.2.1, seen] at stray
      cases stray
    rw [unspoken', List.nil_append] at begins
    have below := ih later begins.2
    simp only [List.mem_append, List.mem_cons]
    rintro c ((mem | mem) | rfl | mem | mem)
    · exact (here c mem).2
    · exact clean c mem
    · decide
    · exact clean' c mem
    · exact below c mem

theorem Spells.ink_of_plain {parts : List String} {written : List Char}
    (spells : Spells parts written) (identifiers : ∀ part ∈ parts, IsIdentifier part)
    (plain : ∀ c ∈ written, isStray c = false) : ink written = (".".intercalate parts).toList := by
  have vanishes {gap : List Char} (isGap : IsGap gap) (plain : ∀ c ∈ gap, isStray c = false) :
      ink gap = [] := by
    obtain ⟨unspoken, -⟩ | ⟨c, rest, spoken, stray⟩ := isGap.ink
    · exact unspoken
    · have mem : c ∈ gap := (List.mem_filter.1 (spoken ▸ List.mem_cons_self ..)).1
      rw [plain c mem] at stray
      cases stray
  induction spells with
  | one part =>
    have here := (identifiers part (List.mem_singleton_self part)).visible
    simpa using ink_of_visible fun c mem => (here c mem).1
  | @next part parts before behind written front back rest ih =>
    have here := (identifiers part (List.mem_cons_self ..)).visible
    simp only [List.mem_append, List.mem_cons] at plain
    rw [intercalate_cons_toList part rest.ne_nil, ink_append, ink_append,
      ink_of_visible fun c mem => (here c mem).1, ink_cons_visible (by decide), ink_append,
      vanishes front fun c mem => plain c (.inl (.inr mem)),
      vanishes back fun c mem => plain c (.inr (.inr (.inl mem))),
      ih (fun other listed => identifiers other (List.mem_cons_of_mem _ listed))
        fun c mem => plain c (.inr (.inr (.inr mem)))]
    simp

theorem Spells.ink_ne_nil {parts : List String} {written : List Char}
    (spells : Spells parts written) (identifiers : ∀ part ∈ parts, IsIdentifier part) :
    ink written ≠ [] := by
  have shown (part : String) (identifier : IsIdentifier part) : ink part.toList ≠ [] := by
    rw [ink_of_visible fun c mem => (identifier.visible c mem).1]
    exact identifier.ne_nil
  cases spells with
  | one part => exact shown part (identifiers part (List.mem_singleton_self part))
  | next part =>
    rw [ink_append, ink_append]
    simp [shown part (identifiers part (List.mem_cons_self ..))]

namespace DottedName

variable (name : DottedName)

theorem isModuleName_meant : IsModuleName name.meant :=
  ⟨name.parts, name.spells.ne_nil, name.identifiers, rfl⟩

theorem recorded_visible : ∀ c ∈ name.recorded.toList, isBlank c = false := by
  intro c mem
  rw [recorded, String.toList_ofList, ink, List.mem_filter] at mem
  simpa using mem.2

theorem recorded_ne_empty : name.recorded ≠ "" := by
  intro blank
  have shown := name.spells.ink_ne_nil name.identifiers
  rw [← String.toList_ofList (l := ink name.written), ← recorded, blank] at shown
  exact shown rfl

theorem isPlain_of_prefix (begins : name.meant.toList <+: name.recorded.toList) : name.IsPlain := by
  rw [recorded, String.toList_ofList] at begins
  exact name.spells.plain_of_prefix name.identifiers begins

theorem isPlain_iff : name.IsPlain ↔ name.recorded = name.meant := by
  constructor
  · intro plain
    rw [recorded, name.spells.ink_of_plain name.identifiers plain, String.ofList_toList, meant]
  · intro same
    exact name.isPlain_of_prefix (same ▸ List.prefix_rfl)

theorem isModuleName_recorded_iff : IsModuleName name.recorded ↔ name.IsPlain := by
  constructor
  · intro isName c mem
    cases blank : isBlank c with
    | true => exact isStray_of_isBlank blank
    | false =>
      refine (isName.visible c ?_).2
      rw [recorded, String.toList_ofList, ink, List.mem_filter]
      exact ⟨mem, by rw [blank]; rfl⟩
  · intro plain
    rw [name.isPlain_iff.1 plain]
    exact name.isModuleName_meant

theorem resolve_recorded_iff :
    (∀ targets, resolve targets name.recorded = resolve targets name.meant) ↔ name.IsPlain := by
  constructor
  · intro same
    have found : resolvesTo name.meant name.meant = true :=
      (resolvesTo_iff _ _).2 ⟨[], (List.append_nil _).symm, .inl rfl⟩
    have both := same [⟨name.meant, "", .other⟩]
    have refers : resolvesTo name.recorded name.meant = true := by
      by_contra other
      simp [resolve, found, other] at both
    obtain ⟨rest, whole, -⟩ := (resolvesTo_iff _ _).1 refers
    exact name.isPlain_of_prefix ⟨rest, whole.symm⟩
  · intro plain targets
    rw [name.isPlain_iff.1 plain]

end DottedName

end SourceAtlas.Python
