import Mathlib.Data.List.DropRight
import SourceAtlas.Proofs.Json.Lockstep
set_option autoImplicit false

namespace SourceAtlas.Json

open Number (Binary64)

variable {α : Type}

theorem skipGap_skipGap (cs : List Char) : skipGap (skipGap cs) = skipGap cs := by
  exact List.dropWhile_idempotent isGap cs

theorem readValue_skipGap (depth : Nat) (cs : List Char) :
    readValue depth cs = readValue depth (skipGap cs) := by
  unfold readValue
  rw [skipGap_skipGap]

theorem readValue_list {cs rest : List Char} {depth : Nat} (skipped : skipGap cs = '[' :: rest) :
    readValue (depth + 1) cs = (do
      let (items, rest) ← readItems (readValue depth) ('[' :: rest) true rest
      .ok (.array items, rest)) := by
  rw [readValue, skipped]
  rfl

theorem readValue_object {cs rest : List Char} {depth : Nat} (skipped : skipGap cs = '{' :: rest) :
    readValue (depth + 1) cs = (do
      let (members, rest) ← readMembers (addMember (readValue depth)) ('{' :: rest) true [] rest
      .ok (.object members, rest)) := by
  rw [readValue, skipped]
  rfl

theorem readValue_of_skipGap {c : Char} {cs rest : List Char} (skipped : skipGap cs = c :: rest)
    (list : c ≠ '[') (object : c ≠ '{') (depth : Nat) :
    readValue depth cs = readScalar (c :: rest) := by
  unfold readValue
  rw [skipped]
  split
  · next same => exact absurd (List.cons.inj same).1 list
  · next same => exact absurd (List.cons.inj same).1 object
  · rfl

theorem readScalar_of_numeric {c : Char} (head : c = '-' ∨ c.isDigit = true) (cs : List Char) :
    readScalar (c :: cs) = (do
      let (value, rest) ← readNumber (c :: cs)
      .ok (.number value, rest)) := by
  have word : ∀ d, (d = 'n' ∨ d = 't' ∨ d = 'f' ∨ d = '"') → c ≠ d := by
    rintro d (rfl | rfl | rfl | rfl) rfl <;> revert head <;> decide
  unfold readScalar
  split
  · next impossible => cases impossible
  · next same => exact absurd (List.cons.inj same).1 (word _ (by simp))
  · next same => exact absurd (List.cons.inj same).1 (word _ (by simp))
  · next same => exact absurd (List.cons.inj same).1 (word _ (by simp))
  · next same => exact absurd (List.cons.inj same).1 (word _ (by simp))
  · next same =>
    obtain ⟨rfl, rfl⟩ := List.cons.inj same
    rw [if_pos head]

theorem readTextAs_eq_ok {expected : String} {cs : List Char} {p : String × List Char} :
    readTextAs expected cs = .ok p ↔ ∃ rest, skipGap cs = '"' :: rest ∧ readString rest = .ok p := by
  unfold readTextAs
  split
  · next rest skipped => simp [skipped]
  · next other =>
    constructor
    · exact fun read => absurd read refuse_ne_ok
    · rintro ⟨rest, skipped, -⟩
      exact absurd skipped (other rest)

theorem readTextAs_follows (expected : String) (depth : Nat) :
    Follows (fun text value => value = .string text) (readTextAs expected) (readValue depth) := by
  intro cs text rest read
  obtain ⟨tail, skipped, read⟩ := readTextAs_eq_ok.1 read
  refine ⟨.string text, ?_, rfl⟩
  rw [readValue_of_skipGap skipped (by decide) (by decide)]
  exact bind_eq_ok.2 ⟨_, read, rfl⟩

def toReal : JsonNumber → Binary64
  | .integer i => Binary64.ofInt i
  | .real x => x.plain

def IsReal (x : Binary64) (value : Json) : Prop :=
  ∃ number, value = .number number ∧ x = toReal number

theorem readReal_follows (depth : Nat) : Follows IsReal readReal (readValue depth) := by
  intro cs x rest read
  unfold readReal at read
  split at read
  · cases read
  next c tail skipped =>
  split at read
  · next head =>
    have apart : c ≠ '[' ∧ c ≠ '{' := by
      constructor <;> rintro rfl <;> revert head <;> decide
    obtain ⟨⟨number, behind⟩, one, read⟩ := bind_eq_ok.1 read
    refine ⟨.number number, ?_, number, rfl, ?_⟩
    · rw [readValue_of_skipGap skipped apart.1 apart.2, readScalar_of_numeric head, one]
      cases number <;> obtain ⟨-, rfl⟩ := Prod.mk.inj (Except.ok.inj read) <;> rfl
    · cases number <;> obtain ⟨rfl, -⟩ := Prod.mk.inj (Except.ok.inj read) <;> rfl
  · exact absurd read refuse_ne_ok

def IsOptional (R : α → Json → Prop) : Option α → Json → Prop
  | none, value => value = .null
  | some a, value => R a value

theorem readOptional_follows {R : α → Json → Prop} {item : Reader α} {depth : Nat}
    (follows : Follows R item (readValue depth)) :
    Follows (IsOptional R) (readOptional item) (readValue depth) := by
  intro cs value rest read
  unfold readOptional at read
  split at read
  · next tail skipped =>
    obtain ⟨behind, word, read⟩ := bind_eq_ok.1 read
    obtain ⟨rfl, rfl⟩ := Prod.mk.inj (Except.ok.inj read)
    refine ⟨.null, ?_, rfl⟩
    rw [readValue_of_skipGap skipped (by decide) (by decide)]
    exact bind_eq_ok.2 ⟨_, word, rfl⟩
  · obtain ⟨⟨a, behind⟩, one, read⟩ := bind_eq_ok.1 read
    obtain ⟨rfl, rfl⟩ := Prod.mk.inj (Except.ok.inj read)
    obtain ⟨v, taken, related⟩ := follows _ _ _ one
    rw [← readValue_skipGap] at taken
    exact ⟨v, taken, related⟩

def IsList (R : α → Json → Prop) (items : List α) (value : Json) : Prop :=
  ∃ values, value = .array values ∧ List.Forall₂ R items values

theorem readList_follows {R : α → Json → Prop} {item : Reader α} {depth : Nat}
    (follows : Follows R item (readValue depth)) :
    Follows (IsList R) (readList item) (readValue (depth + 1)) := by
  intro cs items rest read
  unfold readList at read
  split at read
  · next tail skipped =>
    obtain ⟨values, taken, related⟩ := follows.readItems _ _ _ _ _ read
    refine ⟨.array values, ?_, values, rfl, related⟩
    rw [readValue_list skipped, taken]
    rfl
  · exact absurd read refuse_ne_ok

theorem readMember_follows {β : Type} {R : α → β → Prop} {item : Reader α} {other : Reader β}
    (follows : Follows R item other) : Follows R (readMember item) (readMember other) := by
  intro cs a rest read
  obtain ⟨start, colon, one⟩ := bind_eq_ok.1 read
  obtain ⟨b, taken, related⟩ := follows _ _ _ one
  exact ⟨b, bind_eq_ok.2 ⟨start, colon, taken⟩, related⟩

end SourceAtlas.Json
