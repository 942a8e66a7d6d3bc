import Mathlib.Data.List.Forall2
import SourceAtlas.Json.Reader
set_option autoImplicit false

/-!
# Two readers of one text

A reader follows another one if it takes a related value wherever the other takes one, and leaves
the same rest. Then lists and objects that are read with the two are related as well. With the
reader itself for both, that says what holds of everything it takes.
-/

namespace SourceAtlas.Json

variable {α β σ τ ε : Type}

abbrev Reader (α : Type) := List Char → Except Fault (α × List Char)

def Follows (R : α → β → Prop) (read : Reader α) (other : Reader β) : Prop :=
  ∀ cs a rest, read cs = .ok (a, rest) → ∃ b, other cs = .ok (b, rest) ∧ R a b

theorem bind_eq_ok {x : Except ε α} {f : α → Except ε β} {b : β} :
    (x >>= f) = .ok b ↔ ∃ a, x = .ok a ∧ f a = .ok b := by
  cases x with
  | error e => simp [bind, Except.bind]
  | ok a => simp [bind, Except.bind]

theorem ok_of_toOption {x : Except ε α} {a : α} (same : x.toOption = some a) : x = .ok a := by
  cases x with
  | error e => cases same
  | ok b => exact congrArg Except.ok (Option.some.inj same)

theorem refuse_ne_ok {expected : String} {cs : List Char} {a : α} :
    refuse expected cs ≠ .ok a := by
  intro read
  unfold refuse at read
  split at read
  · cases read
  · cases read
  · obtain ⟨found, -, stop⟩ := bind_eq_ok.1 read
    cases stop

theorem Follows.readItems {R : α → β → Prop} {item : Reader α} {other : Reader β}
    (follows : Follows R item other) (fuel : List Char) (first : Bool) :
    Follows (List.Forall₂ R) (readItems item fuel first) (readItems other fuel first) := by
  induction fuel generalizing first with
  | nil =>
    intro cs values rest read
    cases read
  | cons f fuel ih =>
    intro cs values rest read
    obtain ⟨⟨more, front⟩, next, read⟩ := bind_eq_ok.1 read
    cases more with
    | true =>
      obtain ⟨⟨value, middle⟩, one, read⟩ := bind_eq_ok.1 read
      obtain ⟨⟨values', behind⟩, later, read⟩ := bind_eq_ok.1 read
      obtain ⟨rfl, rfl⟩ := Prod.mk.inj (Except.ok.inj read)
      obtain ⟨other', one', related⟩ := follows _ _ _ one
      obtain ⟨others, later', follow⟩ := ih false _ _ _ later
      refine ⟨other' :: others, ?_, .cons related follow⟩
      simp only [Json.readItems, next, bind, Except.bind, if_true, one', later']
    | false =>
      obtain ⟨behind, close, read⟩ := bind_eq_ok.1 read
      obtain ⟨rfl, rfl⟩ := Prod.mk.inj (Except.ok.inj read)
      refine ⟨[], ?_, .nil⟩
      simp only [Json.readItems, next, bind, Except.bind, Bool.false_eq_true, if_false, close]

theorem Follows.readMembers {R : σ → τ → Prop} {member : σ → String → Reader σ}
    {other : τ → String → Reader τ}
    (follows : ∀ s t key, R s t → Follows R (member s key) (other t key)) (fuel : List Char)
    (first : Bool) {s : σ} {t : τ} (related : R s t) :
    Follows R (readMembers member fuel first s) (readMembers other fuel first t) := by
  induction fuel generalizing first s t with
  | nil =>
    intro cs last rest read
    cases read
  | cons f fuel ih =>
    intro cs last rest read
    obtain ⟨⟨key, front⟩, next, read⟩ := bind_eq_ok.1 read
    cases key with
    | none =>
      obtain ⟨rfl, rfl⟩ := Prod.mk.inj (Except.ok.inj read)
      refine ⟨t, ?_, related⟩
      simp only [Json.readMembers, next, bind, Except.bind]
    | some key =>
      obtain ⟨⟨gathered, middle⟩, one, read⟩ := bind_eq_ok.1 read
      obtain ⟨gathered', one', related⟩ := follows _ _ _ related _ _ _ one
      obtain ⟨last', more', related⟩ := ih false related _ _ _ read
      refine ⟨last', ?_, related⟩
      simp only [Json.readMembers, next, bind, Except.bind, one', more']

def Ensures (P : α → Prop) (read : Reader α) : Prop :=
  ∀ cs a rest, read cs = .ok (a, rest) → P a

theorem Ensures.follows {P : α → Prop} {read : Reader α} (ensures : Ensures P read) :
    Follows (fun a b => a = b ∧ P a) read read :=
  fun cs a rest taken => ⟨a, taken, rfl, ensures cs a rest taken⟩

theorem Ensures.readItems {P : α → Prop} {item : Reader α} (ensures : Ensures P item)
    (fuel : List Char) (first : Bool) :
    Ensures (fun values => ∀ a ∈ values, P a) (readItems item fuel first) := by
  intro cs values rest read
  obtain ⟨others, -, follow⟩ := ensures.follows.readItems fuel first cs values rest read
  clear read
  induction follow with
  | nil => exact fun a mem => absurd mem List.not_mem_nil
  | cons one _ ih => exact List.forall_mem_cons.2 ⟨one.2, ih⟩

theorem Ensures.readMembers {P : σ → Prop} {member : σ → String → Reader σ}
    (ensures : ∀ s key, P s → Ensures P (member s key)) (fuel : List Char) (first : Bool) {s : σ}
    (start : P s) : Ensures P (readMembers member fuel first s) := by
  intro cs last rest read
  have step : ∀ s t key, (s = t ∧ P s) →
      Follows (fun s t => s = t ∧ P s) (member s key) (member t key) := by
    rintro s _ key ⟨rfl, holds⟩
    exact (ensures s key holds).follows
  obtain ⟨-, -, -, holds⟩ := Follows.readMembers step fuel first ⟨rfl, start⟩ cs last rest read
  exact holds

end SourceAtlas.Json
