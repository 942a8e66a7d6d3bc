import SourceAtlas.Proofs.Json.Layout
import SourceAtlas.Proofs.Json.Members
import SourceAtlas.Proofs.Json.View
set_option autoImplicit false

namespace SourceAtlas.Json

def Legible : Nat → Json → Prop
  | _, .number (.integer i) => Storable i
  | 0, .array _ => False
  | 0, .object _ => False
  | depth + 1, .array items => ∀ item ∈ items, Legible depth item
  | depth + 1, .object members => Members.Sorted members ∧ ∀ m ∈ members, Legible depth m.2
  | _, _ => True

theorem readScalar_legible (depth : Nat) : Ensures (Legible depth) readScalar := by
  intro cs value rest read
  unfold readScalar at read
  split at read
  · cases read
  · obtain ⟨behind, -, read⟩ := bind_eq_ok.1 read
    obtain ⟨rfl, -⟩ := Prod.mk.inj (Except.ok.inj read)
    simp [Legible]
  · obtain ⟨behind, -, read⟩ := bind_eq_ok.1 read
    obtain ⟨rfl, -⟩ := Prod.mk.inj (Except.ok.inj read)
    simp [Legible]
  · obtain ⟨behind, -, read⟩ := bind_eq_ok.1 read
    obtain ⟨rfl, -⟩ := Prod.mk.inj (Except.ok.inj read)
    simp [Legible]
  · obtain ⟨⟨text, behind⟩, -, read⟩ := bind_eq_ok.1 read
    obtain ⟨rfl, -⟩ := Prod.mk.inj (Except.ok.inj read)
    simp [Legible]
  split at read
  · obtain ⟨⟨number, behind⟩, one, read⟩ := bind_eq_ok.1 read
    obtain ⟨rfl, -⟩ := Prod.mk.inj (Except.ok.inj read)
    cases number with
    | integer i =>
      simp only [Legible]
      exact readNumber_storable one
    | real x => simp [Legible]
  · cases read

theorem addMember_legible {item : Reader Json} {P : Json → Prop} (ensures : Ensures P item)
    (members : Members) (key : String) (holds : members.Sorted ∧ ∀ m ∈ members, P m.2) :
    Ensures (fun members => members.Sorted ∧ ∀ m ∈ members, P m.2) (addMember item members key) := by
  intro cs more rest read
  obtain ⟨⟨value, behind⟩, one, read⟩ := bind_eq_ok.1 read
  obtain ⟨rfl, -⟩ := Prod.mk.inj (Except.ok.inj read)
  obtain ⟨start, -, one⟩ := bind_eq_ok.1 one
  refine ⟨Members.sorted_set holds.1 key value, fun m mem => ?_⟩
  rcases Members.mem_set mem with rfl | mem
  · exact ensures _ _ _ one
  · exact holds.2 m mem

theorem readValue_legible (depth : Nat) : Ensures (Legible depth) (readValue depth) := by
  induction depth with
  | zero =>
    intro cs value rest read
    unfold readValue at read
    split at read
    · cases read
    · cases read
    · exact readScalar_legible 0 _ _ _ read
  | succ depth ih =>
    intro cs value rest read
    unfold readValue at read
    split at read
    · obtain ⟨⟨items, behind⟩, gathered, read⟩ := bind_eq_ok.1 read
      obtain ⟨rfl, -⟩ := Prod.mk.inj (Except.ok.inj read)
      exact ih.readItems _ _ _ _ _ gathered
    · obtain ⟨⟨members, behind⟩, gathered, read⟩ := bind_eq_ok.1 read
      obtain ⟨rfl, -⟩ := Prod.mk.inj (Except.ok.inj read)
      exact Ensures.readMembers (addMember_legible ih) _ _ ⟨.nil, by simp⟩ _ _ _ gathered
    · exact readScalar_legible _ _ _ _ read

mutual

def numbers : Json → List JsonNumber
  | .number value => [value]
  | .array items => numbersOfItems items
  | .object members => numbersOfMembers members
  | _ => []

def numbersOfItems : List Json → List JsonNumber
  | [] => []
  | item :: items => numbers item ++ numbersOfItems items

def numbersOfMembers : List (String × Json) → List JsonNumber
  | [] => []
  | (_, value) :: members => numbers value ++ numbersOfMembers members

end

theorem mem_numbersOfItems {number : JsonNumber} {items : List Json} {item : Json}
    (mem : item ∈ items) (inside : number ∈ item.numbers) : number ∈ numbersOfItems items := by
  induction items with
  | nil => cases mem
  | cons first items ih =>
    rw [numbersOfItems, List.mem_append]
    rcases List.mem_cons.1 mem with rfl | mem
    · exact .inl inside
    · exact .inr (ih mem)

theorem mem_numbersOfMembers {number : JsonNumber} {members : Members} {m : String × Json}
    (mem : m ∈ members) (inside : number ∈ m.2.numbers) :
    number ∈ numbersOfMembers members := by
  induction members with
  | nil => cases mem
  | cons first members ih =>
    rw [numbersOfMembers, List.mem_append]
    rcases List.mem_cons.1 mem with rfl | mem
    · exact .inl inside
    · exact .inr (ih mem)

/-- Whether the real numbers among some numbers are read as they were written. -/
def RealsReadBack (numbers : List JsonNumber) : Prop :=
  ∀ x, JsonNumber.real x ∈ numbers → ReadsBack (.real x)

theorem ReadsBack.head {number : JsonNumber} (back : ReadsBack number) :
    ∃ c cs, number.write.toList = c :: cs ∧ (c = '-' ∨ c.isDigit = true) := by
  have read := back [] endsNumber_nil
  rw [List.append_nil] at read
  -- A text with any other head would have been refused.
  cases written : number.write.toList with
  | nil =>
    rw [written] at read
    cases read
  | cons c cs =>
    rw [written] at read
    refine ⟨c, cs, rfl, ?_⟩
    by_cases sign : c = '-'
    · exact .inl sign
    · have plain : readNumber (c :: cs) = readMagnitude false (c :: cs) := by
        rw [readNumber.eq_2]
        intro tail same
        exact sign (List.cons.inj same).1
      rw [plain, readMagnitude] at read
      split at read
      · cases read
      split at read
      · exact .inr ‹_›
      · cases read

theorem readScalar_number {number : JsonNumber} (back : ReadsBack number) {rest : List Char}
    (ends : EndsNumber rest) :
    readScalar (number.write.toList ++ rest) = .ok (.number number, rest) := by
  have read := back rest ends
  obtain ⟨c, cs, written, head⟩ := back.head
  rw [written, List.cons_append] at read ⊢
  rw [readScalar_of_numeric head, read]
  rfl

theorem readValue_of_scalar {c : Char} (visible : isGap c = false) (list : c ≠ '[')
    (object : c ≠ '{') (depth : Nat) (cs : List Char) :
    readValue depth (c :: cs) = readScalar (c :: cs) :=
  readValue_of_skipGap (skipGap_of_visible visible cs) list object depth

theorem takes_number {number : JsonNumber} (back : ReadsBack number) (depth level : Nat) :
    Takes (readValue depth) level (.number number) (.number number) := by
  obtain ⟨c, cs, written, head⟩ := back.head
  -- A sign or a digit leads to no other reader than that of numbers.
  have apart : isGap c = false ∧ c ≠ ']' ∧ c ≠ '[' ∧ c ≠ '{' := by
    rcases head with rfl | digit
    · decide
    · refine ⟨?_, ?_, ?_, ?_⟩
      · unfold isGap
        simp only [Bool.or_eq_false_iff, decide_eq_false_iff_not]
        refine ⟨⟨⟨?_, ?_⟩, ?_⟩, ?_⟩ <;> rintro rfl <;> cases digit
      all_goals
        rintro rfl
        cases digit
  obtain ⟨visible, close, list, object⟩ := apart
  rw [Takes, writeValue]
  refine ⟨⟨c, cs, written, visible, close⟩, fun rest ends => ?_⟩
  have read := readScalar_number back ends
  rw [written, List.cons_append] at read ⊢
  rw [readValue_of_scalar visible list object, read]

theorem takes_string (text : String) (depth level : Nat) :
    Takes (readValue depth) level (.string text) (.string text) := by
  rw [Takes, writeValue, writeString]
  refine ⟨⟨'"', _, rfl, by decide, by decide⟩, fun rest _ => ?_⟩
  rw [List.append_assoc, List.cons_append, readValue_of_scalar (by decide) (by decide) (by decide)]
  exact bind_eq_ok.2 ⟨(text, rest), readString_written text rest, rfl⟩

theorem readValue_skipsBlank (depth : Nat) : SkipsBlank (readValue depth) := by
  intro cs
  rw [readValue_skipGap, skipGap_blank, ← readValue_skipGap]

theorem gathers_members {item : Reader Json} (skips : SkipsBlank item) {level : Nat}
    {start members : Members} (sorted : Members.Sorted (start ++ members))
    (takes : ∀ m ∈ members, Takes item level m.2 m.2) :
    Gathers (addMember item) level start members (start ++ members) := by
  induction members generalizing start with
  | nil =>
    rw [List.append_nil]
    exact .nil start
  | cons m members ih =>
    obtain ⟨key, value⟩ := m
    -- The key is behind all that there are, so its member is put at the end.
    have above : ∀ m ∈ start, m.1 < key := fun m mem =>
      (List.pairwise_append.1 sorted).2.2 m mem (key, value) (List.mem_cons_self ..)
    have next : start ++ (key, value) :: members = (start ++ [(key, value)]) ++ members := by
      rw [List.append_assoc, List.singleton_append]
    rw [next] at sorted ⊢
    refine .cons (fun rest ends => ?_) (ih sorted fun m mem => takes m (List.mem_cons_of_mem _ mem))
    have one := (takes (key, value) (List.mem_cons_self ..)).member skips ends
    rw [addMember, one, ← Members.set_last value above]
    rfl

theorem takes_scalar {value : Json} (list : ∀ items, value ≠ .array items)
    (object : ∀ members, value ≠ .object members) (depth level : Nat)
    (legible : Legible depth value) (back : RealsReadBack value.numbers) :
    Takes (readValue depth) level value value := by
  cases value with
  | null =>
    rw [Takes, writeValue]
    exact ⟨⟨'n', _, rfl, by decide, by decide⟩, fun rest _ =>
      readValue_of_scalar (by decide) (by decide) (by decide) depth _⟩
  | bool value =>
    cases value with
    | true =>
      rw [Takes, writeValue]
      exact ⟨⟨'t', _, rfl, by decide, by decide⟩, fun rest _ =>
        readValue_of_scalar (by decide) (by decide) (by decide) depth _⟩
    | false =>
      rw [Takes, writeValue]
      exact ⟨⟨'f', _, rfl, by decide, by decide⟩, fun rest _ =>
        readValue_of_scalar (by decide) (by decide) (by decide) depth _⟩
  | number value =>
    cases value with
    | integer i =>
      simp only [Legible] at legible
      exact takes_number (readsBack_integer legible) depth level
    | real x => exact takes_number (back x (List.mem_singleton_self _)) depth level
  | string text => exact takes_string text depth level
  | array items => exact absurd rfl (list items)
  | object members => exact absurd rfl (object members)

theorem takes_value (depth level : Nat) (value : Json) (legible : Legible depth value)
    (back : RealsReadBack value.numbers) : Takes (readValue depth) level value value := by
  -- On the depth and not on the value, for the readers of items and members go down by depth.
  induction depth generalizing level value with
  | zero =>
    cases value with
    | array items => exact legible.elim
    | object members => exact legible.elim
    | _ => exact takes_scalar (by simp) (by simp) 0 level legible back
  | succ depth ih =>
    cases value with
    | array items =>
      have takes : List.Forall₂ (Takes (readValue depth) (level + 1)) items items :=
        List.forall₂_same.2 fun item mem => ih (level + 1) item (legible item mem)
          fun x inside => back x (mem_numbersOfItems mem inside)
      refine ⟨begins_array level items, fun rest _ => ?_⟩
      · obtain ⟨inner, written, read⟩ := readItems_array takes rest
        rw [written, readValue_list rfl, read]
        rfl
    | object members =>
      obtain ⟨sorted, legible⟩ := legible
      have gathers : Gathers (addMember (readValue depth)) (level + 1) [] members members :=
        gathers_members (readValue_skipsBlank depth) sorted fun m mem =>
          ih (level + 1) m.2 (legible m mem) fun x inside => back x (mem_numbersOfMembers mem inside)
      refine ⟨begins_object level members, fun rest _ => ?_⟩
      · obtain ⟨inner, written, read⟩ := readMembers_object gathers rest
        rw [written, readValue_object rfl, read]
        rfl
    | _ => exact takes_scalar (by simp) (by simp) (depth + 1) level legible back

variable {α : Type}

theorem skipsBlank_text (expected : String) : SkipsBlank (readTextAs expected) := fun _ => rfl

theorem skipsBlank_optional (item : Reader α) : SkipsBlank (readOptional item) :=
  fun _ => rfl

theorem skipsBlank_list (item : Reader α) : SkipsBlank (readList item) :=
  fun _ => rfl

theorem skipsBlank_real : SkipsBlank readReal := fun _ => rfl

theorem takes_text (expected text : String) (level : Nat) :
    Takes (readTextAs expected) level (.string text) text := by
  rw [Takes, writeValue, writeString]
  refine ⟨⟨'"', _, rfl, by decide, by decide⟩, fun rest _ => ?_⟩
  rw [List.append_assoc, List.cons_append]
  refine readTextAs_eq_ok.2 ⟨_, skipGap_of_visible (by decide) _, ?_⟩
  exact readString_written text rest

theorem takes_optional {item : Reader α} {level : Nat} {text : String} {a : α}
    (takes : Takes item level (.string text) a) :
    Takes (readOptional item) level (.string text) (some a) := by
  refine ⟨takes.1, fun rest ends => ?_⟩
  have one := takes.2 rest ends
  rw [writeValue, writeString, List.append_assoc, List.cons_append] at one ⊢
  rw [readOptional, skipGap_of_visible (by decide)]
  exact bind_eq_ok.2 ⟨_, one, rfl⟩

theorem takes_list {item : Reader α} {level : Nat} {items : List Json}
    {values : List α} (takes : List.Forall₂ (Takes item (level + 1)) items values) :
    Takes (readList item) level (.array items) values := by
  refine ⟨begins_array level items, fun rest _ => ?_⟩
  obtain ⟨inner, written, read⟩ := readItems_array takes rest
  have opened : skipGap ('[' :: inner) = '[' :: inner := skipGap_of_visible (by decide) inner
  rw [written, readList, opened]
  exact read

end SourceAtlas.Json
