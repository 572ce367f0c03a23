import Mathlib.Data.List.Basic

/-!
# The order of bytes

Texts are compared character by character. Their bytes come in the same order, since of two
characters the one with the greater code has more bytes, and then a greater first one, or as many
bytes with the greater digits of the code in front.
-/

namespace SchemaLang.Text

open List

/-- The bytes of a text. -/
def bytes (text : String) : List UInt8 := text.toUTF8.data.toList

theorem bytes_eq (text : String) : bytes text = text.toList.flatMap String.utf8EncodeChar := by
  have encoded : (String.ofList text.toList).toByteArray = text.toList.utf8Encode :=
    String.toByteArray_ofList
  rw [String.ofList_toList] at encoded
  show text.toByteArray.data.toList = _
  rw [encoded, utf8Encode, toList_data_toByteArray]

/-- A byte made of some digits of a code. Where two codes agree in front of these, the greater code
has a greater byte, or the same one with greater bytes behind it. -/
theorem digit_lt (unit size lead : Nat) {code other : Nat} {rest others : List UInt8}
    (less : code < other) (fits : size + lead ≤ 256) (positive : 0 < size)
    (same : code / unit / size = other / unit / size)
    (further : code / unit = other / unit → rest < others) :
    UInt8.ofNat (code / unit % size + lead) :: rest <
      UInt8.ofNat (other / unit % size + lead) :: others := by
  have ordered := Nat.div_le_div_right (c := unit) (Nat.le_of_lt less)
  have digits := Nat.div_add_mod (code / unit) size
  have otherDigits := Nat.div_add_mod (other / unit) size
  have small := Nat.mod_lt (code / unit) positive
  have alsoSmall := Nat.mod_lt (other / unit) positive
  have oneByte : code / unit % size + lead < 256 := by omega
  have otherByte : other / unit % size + lead < 256 := by omega
  rw [same] at digits
  rw [cons_lt_cons_iff, UInt8.lt_iff_toNat_lt, UInt8.toNat_ofNat', UInt8.toNat_ofNat',
    Nat.mod_eq_of_lt oneByte, Nat.mod_eq_of_lt otherByte]
  rcases Nat.lt_or_eq_of_le ordered with below | equal
  · exact .inl (by omega)
  · exact .inr ⟨by rw [equal], further equal⟩

/-- A byte that is less than another one. -/
theorem byte_lt {code other : Nat} {rest others : List UInt8}
    (bounds : code < other ∧ other < 256) :
    UInt8.ofNat code :: rest < UInt8.ofNat other :: others := by
  obtain ⟨less, small⟩ := bounds
  rw [cons_lt_cons_iff, UInt8.lt_iff_toNat_lt, UInt8.toNat_ofNat', UInt8.toNat_ofNat',
    Nat.mod_eq_of_lt (Nat.lt_trans less small), Nat.mod_eq_of_lt small]
  exact .inl less

/-- A character with a greater code has greater bytes, whatever follows. -/
theorem utf8_lt {first second : Char} (less : first < second) (rest others : List UInt8) :
    String.utf8EncodeChar first ++ rest < String.utf8EncodeChar second ++ others := by
  have codes : first.val.toNat < second.val.toNat := UInt32.lt_iff_toNat_lt.mp less
  have bound : second.val.toNat < 1114112 := by
    have valid := second.valid
    simp only [UInt32.isValidChar, Nat.isValidChar] at valid
    omega
  unfold String.utf8EncodeChar
  generalize first.val.toNat = code at codes ⊢
  generalize second.val.toNat = other at codes bound ⊢
  have last : ∀ {rest others : List UInt8}, code / 64 = other / 64 →
      UInt8.ofNat (code % 64 + 128) :: rest < UInt8.ofNat (other % 64 + 128) :: others := by
    intro rest others same
    have digit : UInt8.ofNat (code / 1 % 64 + 128) :: rest <
        UInt8.ofNat (other / 1 % 64 + 128) :: others :=
      digit_lt 1 64 128 codes (by omega) (by omega) (by simpa using same) (by omega)
    simpa using digit
  have third : ∀ {rest others : List UInt8}, code / 4096 = other / 4096 →
      UInt8.ofNat (code / 64 % 64 + 128) :: UInt8.ofNat (code % 64 + 128) :: rest <
        UInt8.ofNat (other / 64 % 64 + 128) :: UInt8.ofNat (other % 64 + 128) :: others :=
    fun same => digit_lt 64 64 128 codes (by omega) (by omega) (by omega) last
  dsimp only
  by_cases one : other ≤ 127
  · rw [if_pos (by omega), if_pos one]
    exact byte_lt ⟨codes, by omega⟩
  by_cases two : other ≤ 2047
  · rw [if_neg one, if_pos two]
    split
    · exact byte_lt (by omega)
    · rw [if_pos (by omega)]
      exact digit_lt 64 32 192 codes (by omega) (by omega) (by omega) last
  by_cases three : other ≤ 65535
  · rw [if_neg one, if_neg two, if_pos three]
    split
    · exact byte_lt (by omega)
    split
    · exact byte_lt (by omega)
    · rw [if_pos (by omega)]
      exact digit_lt 4096 16 224 codes (by omega) (by omega) (by omega) third
  · rw [if_neg one, if_neg two, if_neg three]
    split
    · exact byte_lt (by omega)
    split
    · exact byte_lt (by omega)
    split
    · exact byte_lt (by omega)
    · refine digit_lt 262144 8 240 codes (by omega) (by omega) (by omega) fun same => ?_
      exact digit_lt 4096 64 128 codes (by omega) (by omega) (by omega) third

/-- The bytes of a text that comes first do so too. -/
theorem bytes_lt {first second : String} (less : first < second) : bytes first < bytes second := by
  rw [String.lt_iff] at less
  rw [bytes_eq, bytes_eq]
  generalize first.toList = chars at less ⊢
  generalize second.toList = others at less ⊢
  induction chars generalizing others with
  | nil =>
    cases others with
    | nil => exact absurd less (List.lt_irrefl _)
    | cons other others =>
      have filled : String.utf8EncodeChar other ≠ [] :=
        ne_nil_of_length_pos (String.length_utf8EncodeChar other ▸ other.utf8Size_pos)
      obtain ⟨byte, more, isBytes⟩ := exists_cons_of_ne_nil filled
      rw [flatMap_nil, flatMap_cons, isBytes, cons_append]
      exact nil_lt_cons _ _
  | cons c chars ih =>
    cases others with
    | nil => exact absurd less (not_lt_nil _)
    | cons other others =>
      rw [flatMap_cons, flatMap_cons]
      rcases cons_lt_cons_iff.mp less with below | ⟨rfl, further⟩
      · exact utf8_lt below _ _
      · have behind := ih others further
        generalize String.utf8EncodeChar c = shared
        induction shared with
        | nil => exact behind
        | cons byte shared inner => exact cons_lt_cons_iff.mpr (.inr ⟨rfl, inner⟩)

end SchemaLang.Text
