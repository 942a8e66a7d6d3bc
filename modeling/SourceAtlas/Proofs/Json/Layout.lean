import Mathlib.Data.List.Forall2
import SourceAtlas.Json.Reader
import SourceAtlas.Proofs.Json.Lockstep
import SourceAtlas.Proofs.Json.Numeral
import SourceAtlas.Proofs.Json.Quotation
set_option autoImplicit false

namespace SourceAtlas.Json

variable {α σ : Type}

theorem skipGap_blank (cs : List Char) : skipGap (' ' :: cs) = skipGap cs := rfl

theorem skipGap_of_visible {c : Char} (visible : isGap c = false) (cs : List Char) :
    skipGap (c :: cs) = c :: cs := by
  simp [skipGap, visible]

theorem skipGap_newline (level : Nat) (cs : List Char) :
    skipGap ('\n' :: (indent level ++ cs)) = skipGap cs := by
  have blanks : ∀ n, skipGap (List.replicate n ' ' ++ cs) = skipGap cs := by
    intro n
    induction n with
    | zero => rfl
    | succ n ih => rw [List.replicate_succ, List.cons_append, skipGap_blank, ih]
  exact blanks (2 * level)

theorem endsNumber_newline (cs : List Char) : EndsNumber ('\n' :: cs) := by
  intro c mem
  obtain rfl := Option.mem_some.1 mem
  decide

theorem endsNumber_comma (cs : List Char) : EndsNumber (',' :: cs) := by
  intro c mem
  obtain rfl := Option.mem_some.1 mem
  decide

theorem endsNumber_nil : EndsNumber [] := by
  intro c never
  cases never

def BeginsValue (text : List Char) : Prop :=
  ∃ c cs, text = c :: cs ∧ isGap c = false ∧ c ≠ ']'

theorem BeginsValue.skipGap {text : List Char} (begins : BeginsValue text) (rest : List Char) :
    skipGap (text ++ rest) = text ++ rest := by
  obtain ⟨c, cs, rfl, visible, -⟩ := begins
  exact skipGap_of_visible visible _

def Takes (read : List Char → Except Fault (α × List Char)) (level : Nat) (written : Json)
    (value : α) : Prop :=
  BeginsValue (writeValue level written) ∧
    ∀ rest, EndsNumber rest → read (writeValue level written ++ rest) = .ok (value, rest)

theorem endsNumber_items (level : Nat) (items : List Json) (cs : List Char) :
    EndsNumber (writeItems level items ++ '\n' :: cs) := by
  cases items with
  | nil => exact endsNumber_newline _
  | cons item items =>
    simp only [writeItems, List.cons_append]
    exact endsNumber_comma _

theorem nextItem_first {text : List Char} (begins : BeginsValue text) (level : Nat)
    (rest : List Char) :
    nextItem true ('\n' :: (indent level ++ (text ++ rest))) = .ok (true, text ++ rest) := by
  have skipped := begins.skipGap rest
  obtain ⟨c, cs, rfl, -, open'⟩ := begins
  rw [List.cons_append] at skipped ⊢
  rw [nextItem, skipGap_newline, skipped]
  split
  · next impossible => cases impossible
  · next close =>
    obtain ⟨rfl, -⟩ := List.cons.inj close
    exact absurd rfl open'
  · next same =>
    obtain ⟨rfl, rfl⟩ := List.cons.inj same
    rfl

theorem nextItem_comma (cs : List Char) :
    nextItem false (',' :: cs) = match skipGap cs with
      | [] => stopAt .endInValue []
      | ']' :: rest => stopOn .trailingComma (']' :: rest)
      | rest => .ok (true, rest) :=
  rfl

theorem nextItem_behind {cs rest : List Char} {c : Char} (skipped : skipGap cs = c :: rest)
    (open' : c ≠ ']') : nextItem false (',' :: cs) = .ok (true, c :: rest) := by
  rw [nextItem_comma, skipped]
  split
  · next impossible => cases impossible
  · next close =>
    obtain ⟨rfl, -⟩ := List.cons.inj close
    exact absurd rfl open'
  · rfl

theorem nextItem_later {text : List Char} (begins : BeginsValue text) (level : Nat)
    (rest : List Char) :
    nextItem false (',' :: '\n' :: (indent level ++ (text ++ rest))) = .ok (true, text ++ rest) := by
  have skipped := begins.skipGap rest
  obtain ⟨c, cs, rfl, -, open'⟩ := begins
  exact nextItem_behind ((skipGap_newline level _).trans skipped) open'

theorem nextItem_close (first : Bool) (level : Nat) (rest : List Char) :
    nextItem first ('\n' :: (indent level ++ ']' :: rest)) = .ok (false, ']' :: rest) := by
  rw [nextItem, skipGap_newline, skipGap_of_visible (by decide)]
  rfl

theorem readItems_written {read : List Char → Except Fault (α × List Char)} {level : Nat}
    {items : List Json} {values : List α} (takes : List.Forall₂ (Takes read level) items values)
    (fuel : List Char) (long : items.length < fuel.length) (outer : Nat) (rest : List Char) :
    readItems read fuel false (writeItems level items ++ '\n' :: (indent outer ++ ']' :: rest)) =
      .ok (values, rest) := by
  -- On the items; the fuel only has to outlast them, whatever it is made of.
  induction takes generalizing fuel with
  | nil =>
    cases fuel with
    | nil => simp at long
    | cons f fuel =>
      rw [writeItems, List.nil_append, readItems, nextItem_close]
      rfl
  | @cons item value items values one gathers ih =>
    cases fuel with
    | nil => simp at long
    | cons f fuel =>
      obtain ⟨begins, takes⟩ := one
      have inner := ih fuel (by simpa using long)
      simp only [writeItems, List.cons_append, List.append_assoc]
      rw [readItems, nextItem_later begins]
      simp only [bind, Except.bind, if_true, takes _ (endsNumber_items level items _), inner]

theorem length_le_writeItems (level : Nat) (items : List Json) :
    items.length ≤ (writeItems level items).length := by
  induction items with
  | nil => exact Nat.le_refl _
  | cons item items ih =>
    simp only [writeItems, List.length_cons, List.length_append]
    omega

theorem readItems_array {read : List Char → Except Fault (α × List Char)} {level : Nat}
    {items : List Json} {values : List α}
    (takes : List.Forall₂ (Takes read (level + 1)) items values) (rest : List Char) :
    ∃ inner, writeValue level (.array items) ++ rest = '[' :: inner ∧
      readItems read ('[' :: inner) true inner = .ok (values, rest) := by
  cases takes with
  | nil => exact ⟨']' :: rest, by simp [writeValue], rfl⟩
  | @cons item value items values one gathers =>
    obtain ⟨begins, takes⟩ := one
    simp only [writeValue, List.cons_append, List.append_assoc, List.nil_append]
    refine ⟨_, rfl, ?_⟩
    -- The text itself is the fuel, and every item takes a character of it at least.
    have long := length_le_writeItems (level + 1) items
    rw [readItems, nextItem_first begins]
    simp only [bind, Except.bind, if_true, takes _ (endsNumber_items (level + 1) items _)]
    rw [readItems_written gathers _ (by simp only [List.length_append, List.length_cons]; omega)]

inductive Gathers (member : σ → String → List Char → Except Fault (σ × List Char)) (level : Nat) :
    σ → Members → σ → Prop
  | nil (start : σ) : Gathers member level start [] start
  | cons {start next last : σ} {key : String} {value : Json} {members : Members}
    (one : ∀ rest, EndsNumber rest →
      member start key (':' :: ' ' :: (writeValue level value ++ rest)) = .ok (next, rest))
    (onward : Gathers member level next members last) :
    Gathers member level start ((key, value) :: members) last

theorem endsNumber_members (level : Nat) (members : Members) (cs : List Char) :
    EndsNumber (writeMembers level members ++ '\n' :: cs) := by
  cases members with
  | nil => exact endsNumber_newline _
  | cons m members =>
    simp only [writeMembers, List.cons_append]
    exact endsNumber_comma _

theorem skipGap_key (level : Nat) (key : String) (rest : List Char) :
    skipGap ('\n' :: (indent level ++ (writeString key ++ rest))) =
      '"' :: (key.toList.flatMap writeChar ++ '"' :: rest) := by
  simp only [writeString, List.cons_append, List.append_assoc, List.nil_append, skipGap_newline]
  exact skipGap_of_visible (by decide) _

theorem nextKey_quote {cs tail rest : List Char} {key : String}
    (skipped : skipGap cs = '"' :: tail) (read : readString tail = .ok (key, rest)) :
    nextKey true cs = .ok (some key, rest) := by
  rw [nextKey, skipped]
  exact bind_eq_ok.2 ⟨(key, rest), read, rfl⟩

def readKey (cs : List Char) : Except Fault (Option String × List Char) :=
  match cs with
  | [] => stopAt .endInValue []
  | '"' :: rest => do
    let (key, rest) ← readString rest
    .ok (some key, rest)
  | '}' :: rest => stopOn .trailingComma ('}' :: rest)
  | rest => stopOn .keyNotString rest

theorem nextKey_eq (first : Bool) (cs : List Char) :
    nextKey first cs = match skipGap cs with
      | [] => stopAt .endInObject []
      | '}' :: rest => .ok (none, rest)
      | c :: rest =>
        if first then readKey (c :: rest)
        else if c = ',' then readKey (skipGap rest)
        else stopOn .expectedObjectEnd (c :: rest) :=
  rfl

theorem nextKey_comma {cs tail rest : List Char} {key : String}
    (skipped : skipGap cs = '"' :: tail) (read : readString tail = .ok (key, rest)) :
    nextKey false (',' :: cs) = .ok (some key, rest) := by
  have comma : nextKey false (',' :: cs) = readKey (skipGap cs) := rfl
  rw [comma, skipped]
  exact bind_eq_ok.2 ⟨(key, rest), read, rfl⟩

theorem nextKey_end {cs rest : List Char} (skipped : skipGap cs = '}' :: rest) (first : Bool) :
    nextKey first cs = .ok (none, rest) := by
  rw [nextKey, skipped]
  rfl

theorem nextKey_first (level : Nat) (key : String) (rest : List Char) :
    nextKey true ('\n' :: (indent level ++ (writeString key ++ rest))) = .ok (some key, rest) :=
  nextKey_quote (skipGap_key level key rest) (readString_written key rest)

theorem nextKey_later (level : Nat) (key : String) (rest : List Char) :
    nextKey false (',' :: '\n' :: (indent level ++ (writeString key ++ rest))) =
      .ok (some key, rest) :=
  nextKey_comma (skipGap_key level key rest) (readString_written key rest)

theorem nextKey_close (first : Bool) (level : Nat) (rest : List Char) :
    nextKey first ('\n' :: (indent level ++ '}' :: rest)) = .ok (none, rest) := by
  refine nextKey_end ?_ first
  rw [skipGap_newline, skipGap_of_visible (by decide)]

theorem readMembers_written {member : σ → String → List Char → Except Fault (σ × List Char)}
    {level : Nat} {start last : σ} {members : Members}
    (gathers : Gathers member level start members last) (fuel : List Char)
    (long : members.length < fuel.length) (outer : Nat) (rest : List Char) :
    readMembers member fuel false start
      (writeMembers level members ++ '\n' :: (indent outer ++ '}' :: rest)) = .ok (last, rest) := by
  induction gathers generalizing fuel with
  | nil start =>
    cases fuel with
    | nil => simp at long
    | cons f fuel =>
      rw [writeMembers, List.nil_append, readMembers, nextKey_close]
      rfl
  | @cons start next last key value members one gathers ih =>
    cases fuel with
    | nil => simp at long
    | cons f fuel =>
      have inner := ih fuel (by simpa using long)
      simp only [writeMembers, List.cons_append, List.append_assoc]
      rw [readMembers, nextKey_later]
      simp only [bind, Except.bind, one _ (endsNumber_members level members _), inner]

theorem length_le_writeMembers (level : Nat) (members : Members) :
    members.length ≤ (writeMembers level members).length := by
  induction members with
  | nil => exact Nat.le_refl _
  | cons m members ih =>
    simp only [writeMembers, List.length_cons, List.length_append]
    omega

theorem readMembers_object {member : σ → String → List Char → Except Fault (σ × List Char)}
    {level : Nat} {start last : σ} {members : Members}
    (gathers : Gathers member (level + 1) start members last) (rest : List Char) :
    ∃ inner, writeValue level (.object members) ++ rest = '{' :: inner ∧
      readMembers member ('{' :: inner) true start inner = .ok (last, rest) := by
  cases gathers with
  | nil => exact ⟨'}' :: rest, by simp [writeValue], rfl⟩
  | @cons _ next _ key value members one gathers =>
    simp only [writeValue, List.cons_append, List.append_assoc, List.nil_append]
    refine ⟨_, rfl, ?_⟩
    have long := length_le_writeMembers (level + 1) members
    rw [readMembers, nextKey_first]
    simp only [bind, Except.bind, one _ (endsNumber_members (level + 1) members _)]
    rw [readMembers_written gathers _ (by simp only [List.length_append, List.length_cons]; omega)]

theorem begins_array (level : Nat) (items : List Json) :
    BeginsValue (writeValue level (.array items)) := by
  cases items <;> rw [writeValue] <;> exact ⟨'[', _, rfl, by decide, by decide⟩

theorem begins_object (level : Nat) (members : Members) :
    BeginsValue (writeValue level (.object members)) := by
  cases members <;> rw [writeValue] <;> exact ⟨'{', _, rfl, by decide, by decide⟩

def SkipsBlank (read : Reader α) : Prop :=
  ∀ cs, read (' ' :: cs) = read cs

theorem Takes.member {read : Reader α} {level : Nat} {written : Json} {value : α}
    (takes : Takes read level written value) (skips : SkipsBlank read) {rest : List Char}
    (ends : EndsNumber rest) :
    readMember read (':' :: ' ' :: (writeValue level written ++ rest)) = .ok (value, rest) := by
  have colon : readColon (':' :: ' ' :: (writeValue level written ++ rest)) =
      .ok (' ' :: (writeValue level written ++ rest)) := rfl
  rw [readMember, colon]
  exact (skips _).trans (takes.2 rest ends)

end SourceAtlas.Json
