import SourceAtlas.Number.Shortest
set_option autoImplicit false

namespace SourceAtlas

inductive JsonNumber
  | integer (value : Int)
  | real (value : Number.Binary64)
deriving DecidableEq, Repr

inductive Json
  | null
  | bool (value : Bool)
  | number (value : JsonNumber)
  | string (value : String)
  | array (items : List Json)
  | object (members : List (String × Json))

namespace Json

abbrev Members := List (String × Json)

def Members.Sorted (members : Members) : Prop :=
  members.Pairwise fun a b => a.1 < b.1

def Members.set (key : String) (value : Json) : Members → Members
  | [] => [(key, value)]
  | (k, v) :: rest =>
    if key < k then (key, value) :: (k, v) :: rest
    else if key = k then (key, value) :: rest
    else (k, v) :: Members.set key value rest

def Members.get? (key : String) (members : Members) : Option Json :=
  (members.find? fun m => m.1 == key).map Prod.snd

/-- Sorted members from members in any order, of which later ones prevail. -/
def Members.ofList (members : List (String × Json)) : Members :=
  members.foldl (fun sorted m => Members.set m.1 m.2 sorted) []

mutual

def beq : Json → Json → Bool
  | .null, .null => true
  | .bool a, .bool b => a == b
  | .number a, .number b => a == b
  | .string a, .string b => a == b
  | .array a, .array b => beqItems a b
  | .object a, .object b => beqMembers a b
  | _, _ => false

def beqItems : List Json → List Json → Bool
  | [], [] => true
  | a :: as, b :: bs => beq a b && beqItems as bs
  | _, _ => false

def beqMembers : List (String × Json) → List (String × Json) → Bool
  | [], [] => true
  | (k, a) :: as, (l, b) :: bs => k == l && beq a b && beqMembers as bs
  | _, _ => false

end

mutual

theorem eq_of_beq : (a b : Json) → beq a b = true → a = b
  | .null, b, h => by cases b <;> simp_all [beq]
  | .bool _, b, h => by cases b <;> simp_all [beq]
  | .number _, b, h => by cases b <;> simp_all [beq]
  | .string _, b, h => by cases b <;> simp_all [beq]
  | .array as, b, h => by
    cases b with
    | array bs =>
      rw [beq] at h
      rw [eq_of_beqItems as bs h]
    | _ => simp [beq] at h
  | .object as, b, h => by
    cases b with
    | object bs =>
      rw [beq] at h
      rw [eq_of_beqMembers as bs h]
    | _ => simp [beq] at h

theorem eq_of_beqItems : (as bs : List Json) → beqItems as bs = true → as = bs
  | [], bs, h => by cases bs <;> simp_all [beqItems]
  | a :: as, [], h => by simp [beqItems] at h
  | a :: as, b :: bs, h => by
    rw [beqItems, Bool.and_eq_true] at h
    rw [eq_of_beq a b h.1, eq_of_beqItems as bs h.2]

theorem eq_of_beqMembers :
    (as bs : List (String × Json)) → beqMembers as bs = true → as = bs
  | [], bs, h => by cases bs <;> simp_all [beqMembers]
  | (k, a) :: as, [], h => by simp [beqMembers] at h
  | (k, a) :: as, (l, b) :: bs, h => by
    rw [beqMembers, Bool.and_eq_true, Bool.and_eq_true] at h
    obtain ⟨⟨hk, hv⟩, hm⟩ := h
    rw [eq_of_beq a b hv, eq_of_beqMembers as bs hm, beq_iff_eq.1 hk]

end

mutual

theorem beq_self : (a : Json) → beq a a = true
  | .null => rfl
  | .bool _ => by simp [beq]
  | .number _ => by simp [beq]
  | .string _ => by simp [beq]
  | .array as => by rw [beq, beqItems_self as]
  | .object as => by rw [beq, beqMembers_self as]

theorem beqItems_self : (as : List Json) → beqItems as as = true
  | [] => rfl
  | a :: as => by rw [beqItems, beq_self a, beqItems_self as]; rfl

theorem beqMembers_self : (as : List (String × Json)) → beqMembers as as = true
  | [] => rfl
  | (k, a) :: as => by rw [beqMembers, beq_self a, beqMembers_self as]; simp

end

instance : DecidableEq Json := fun a b =>
  if h : beq a b = true then isTrue (eq_of_beq a b h)
  else isFalse fun e => h (e ▸ beq_self a)

/-- Real numbers are written with digits from `0.00001` up to sixteen places before the point and
with an exponent beyond, and with a point in any case. -/
def decimalStyle : Number.DecimalStyle :=
  ⟨-5, 15, ".0", "e+", "e-"⟩

end Json

def JsonNumber.write : JsonNumber → String
  | .integer value => toString value
  | .real value => value.write Json.decimalStyle

end SourceAtlas
