import Mathlib.Data.List.Lex
import Mathlib.Order.Defs.LinearOrder
set_option autoImplicit false

/-!
# The order of texts and of their bytes

Texts are compared character by character, the names of files byte by byte. Both give the same order:
of two characters the smaller one has the smaller byte where their bytes first differ, and none begins
with all the bytes of another one.
-/

namespace SourceAtlas.Text

def bytes (text : String) : List UInt8 :=
  text.toUTF8.data.toList

theorem bytes_eq_flatMap (text : String) :
    bytes text = text.toList.flatMap String.utf8EncodeChar := by
  have encoded : text.toUTF8 = text.toList.utf8Encode := by
    rw [String.toUTF8_eq_toByteArray, ← String.toByteArray_ofList, String.ofList_toList]
  rw [bytes, encoded, List.utf8Encode, List.toList_data_toByteArray]

theorem digit_lt {a b : Nat} {first second : List UInt8} (small : b < 256)
    (order : a < b ∨ a = b ∧ first < second) :
    UInt8.ofNat a :: first < UInt8.ofNat b :: second := by
  rw [List.cons_lt_cons_iff]
  rcases order with low | ⟨rfl, order⟩
  · refine .inl ?_
    rw [UInt8.lt_iff_toNat_lt, UInt8.toNat_ofNat', UInt8.toNat_ofNat']
    omega
  · exact .inr ⟨rfl, order⟩

theorem lastDigit_lt {a b : Nat} (low : a % 64 < b % 64) (first second : List UInt8) :
    UInt8.ofNat (a % 64 + 128) :: first < UInt8.ofNat (b % 64 + 128) :: second :=
  digit_lt (by omega) (.inl (by omega))

theorem lastTwoDigits_lt {a b : Nat} (low : a % 4096 < b % 4096) (first second : List UInt8) :
    UInt8.ofNat (a / 64 % 64 + 128) :: UInt8.ofNat (a % 64 + 128) :: first <
      UInt8.ofNat (b / 64 % 64 + 128) :: UInt8.ofNat (b % 64 + 128) :: second := by
  refine digit_lt (by omega) ?_
  by_cases high : a / 64 % 64 < b / 64 % 64
  · exact .inl (by omega)
  · exact .inr ⟨by omega, lastDigit_lt (by omega) first second⟩

theorem lastThreeDigits_lt {a b : Nat} (low : a % 262144 < b % 262144)
    (first second : List UInt8) :
    UInt8.ofNat (a / 4096 % 64 + 128) :: UInt8.ofNat (a / 64 % 64 + 128) ::
        UInt8.ofNat (a % 64 + 128) :: first <
      UInt8.ofNat (b / 4096 % 64 + 128) :: UInt8.ofNat (b / 64 % 64 + 128) ::
        UInt8.ofNat (b % 64 + 128) :: second := by
  refine digit_lt (by omega) ?_
  by_cases high : a / 4096 % 64 < b / 4096 % 64
  · exact .inl (by omega)
  · exact .inr ⟨by omega, lastTwoDigits_lt (by omega) first second⟩

theorem utf8EncodeChar_cases (c : Char) : ∃ v, c.val.toNat = v ∧
    (v ≤ 127 ∧ String.utf8EncodeChar c = [UInt8.ofNat v] ∨
      127 < v ∧ v ≤ 2047 ∧
        String.utf8EncodeChar c = [UInt8.ofNat (v / 64 % 32 + 192), UInt8.ofNat (v % 64 + 128)] ∨
      2047 < v ∧ v ≤ 65535 ∧ String.utf8EncodeChar c = [UInt8.ofNat (v / 4096 % 16 + 224),
        UInt8.ofNat (v / 64 % 64 + 128), UInt8.ofNat (v % 64 + 128)] ∨
      65535 < v ∧ v < 1114112 ∧ String.utf8EncodeChar c = [UInt8.ofNat (v / 262144 % 8 + 240),
        UInt8.ofNat (v / 4096 % 64 + 128), UInt8.ofNat (v / 64 % 64 + 128),
        UInt8.ofNat (v % 64 + 128)]) := by
  refine ⟨_, rfl, ?_⟩
  have valid := c.valid
  simp only [UInt32.isValidChar, Nat.isValidChar] at valid
  simp only [String.utf8EncodeChar]
  split
  · next one => exact .inl ⟨one, rfl⟩
  split
  · next one two => exact .inr (.inl ⟨by omega, two, rfl⟩)
  split
  · next one two three => exact .inr (.inr (.inl ⟨by omega, three, rfl⟩))
  · exact .inr (.inr (.inr ⟨by omega, by omega, rfl⟩))

theorem utf8EncodeChar_lt {c d : Char} (low : c < d) (first second : List UInt8) :
    String.utf8EncodeChar c ++ first < String.utf8EncodeChar d ++ second := by
  have low : c.val.toNat < d.val.toNat := UInt32.lt_iff_toNat_lt.1 low
  obtain ⟨a, atC, ⟨size, left⟩ | ⟨above, size, left⟩ | ⟨above, size, left⟩ | ⟨above, size, left⟩⟩ :=
    utf8EncodeChar_cases c
  all_goals
    obtain ⟨b, atD, ⟨size', right⟩ | ⟨above', size', right⟩ | ⟨above', size', right⟩ |
      ⟨above', size', right⟩⟩ := utf8EncodeChar_cases d
    all_goals
      rw [left, right]
      rw [atC, atD] at low
      simp only [List.cons_append, List.nil_append]
  -- The longer encoding has the larger first byte; of two equally long ones the digits are compared.
  all_goals first
    | omega
    | exact digit_lt (by omega) (.inl (by omega))
    | skip
  · refine digit_lt (by omega) ?_
    by_cases high : a / 64 % 32 < b / 64 % 32
    · exact .inl (by omega)
    · exact .inr ⟨by omega, lastDigit_lt (by omega) first second⟩
  · refine digit_lt (by omega) ?_
    by_cases high : a / 4096 % 16 < b / 4096 % 16
    · exact .inl (by omega)
    · exact .inr ⟨by omega, lastTwoDigits_lt (by omega) first second⟩
  · refine digit_lt (by omega) ?_
    by_cases high : a / 262144 % 8 < b / 262144 % 8
    · exact .inl (by omega)
    · exact .inr ⟨by omega, lastThreeDigits_lt (by omega) first second⟩

theorem flatMap_utf8EncodeChar_lt {cs ds : List Char} (low : cs < ds) :
    cs.flatMap String.utf8EncodeChar < ds.flatMap String.utf8EncodeChar := by
  induction cs generalizing ds with
  | nil =>
    cases ds with
    | nil => exact absurd low (List.lt_irrefl _)
    | cons d ds =>
      have nonempty : String.utf8EncodeChar d ≠ [] := by
        intro empty
        have length := congrArg List.length empty
        simp only [String.length_utf8EncodeChar, List.length_nil] at length
        exact absurd length d.utf8Size_pos.ne'
      obtain ⟨first, more, cut⟩ := List.exists_cons_of_ne_nil nonempty
      rw [List.flatMap_cons, cut]
      exact List.nil_lt_cons _ _
  | cons c cs ih =>
    cases ds with
    | nil => exact absurd low (List.not_lt_nil _)
    | cons d ds =>
      rw [List.flatMap_cons, List.flatMap_cons]
      rcases List.cons_lt_cons_iff.1 low with less | ⟨rfl, less⟩
      · exact utf8EncodeChar_lt less _ _
      · exact List.append_left_lt (ih less)

theorem bytes_lt {a b : String} (low : a < b) : bytes a < bytes b := by
  rw [bytes_eq_flatMap, bytes_eq_flatMap]
  exact flatMap_utf8EncodeChar_lt (String.lt_iff.1 low)

theorem map_bytes_lt {as bs : List String} (low : as < bs) : as.map bytes < bs.map bytes := by
  induction as generalizing bs with
  | nil =>
    cases bs with
    | nil => exact absurd low (List.lt_irrefl _)
    | cons b bs => exact List.nil_lt_cons _ _
  | cons a as ih =>
    cases bs with
    | nil => exact absurd low (List.not_lt_nil _)
    | cons b bs =>
      rw [List.map_cons, List.map_cons, List.cons_lt_cons_iff]
      rcases List.cons_lt_cons_iff.1 low with less | ⟨rfl, less⟩
      · exact .inl (bytes_lt less)
      · exact .inr ⟨rfl, ih less⟩

end SourceAtlas.Text
