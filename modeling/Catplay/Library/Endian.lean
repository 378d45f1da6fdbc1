import Mathlib.Data.List.Basic
import Mathlib.Data.List.Induction
import Mathlib.Tactic.Ring

/-!
# Numbers in bytes

Numbers of a fixed width, with the most significant byte first or with the least significant one.
-/

set_option autoImplicit false

/-!
## Big-endian numbers

`toBytes width n` writes a number into `width` bytes, the most significant first, and
`ofBytes` reads one. Reading undoes writing for every number that fits (`ofBytes_toBytes`).
-/

namespace Catplay.Library.BigEndian

def toBytes : Nat → Nat → List UInt8
  | 0, _ => []
  | width + 1, n => toBytes width (n / 256) ++ [UInt8.ofNat n]

theorem toBytes_succ (width n : Nat) :
    toBytes (width + 1) n = toBytes width (n / 256) ++ [UInt8.ofNat n] := rfl

def ofBytes (bytes : List UInt8) : Nat :=
  bytes.foldl (fun n byte => n * 256 + byte.toNat) 0

@[simp] theorem length_toBytes (width n : Nat) : (toBytes width n).length = width := by
  induction width generalizing n with
  | zero => rfl
  | succ width ih => rw [toBytes_succ, List.length_append, ih, List.length_singleton]

theorem ofBytes_concat (bytes : List UInt8) (byte : UInt8) :
    ofBytes (bytes ++ [byte]) = ofBytes bytes * 256 + byte.toNat := by
  unfold ofBytes
  rw [List.foldl_append]
  rfl

theorem ofBytes_lt (bytes : List UInt8) : ofBytes bytes < 256 ^ bytes.length := by
  induction bytes using List.reverseRecOn with
  | nil => exact Nat.one_pos
  | append_singleton bytes byte ih =>
    have := byte.toNat_lt
    rw [ofBytes_concat, List.length_append, List.length_singleton, Nat.pow_succ]
    omega

/-- **Reading undoes writing.** -/
theorem ofBytes_toBytes {width n : Nat} (h : n < 256 ^ width) : ofBytes (toBytes width n) = n := by
  induction width generalizing n with
  | zero =>
    rw [Nat.pow_zero] at h
    show 0 = n
    omega
  | succ width ih =>
    rw [Nat.pow_succ] at h
    rw [toBytes_succ, ofBytes_concat, ih (by omega), UInt8.toNat_ofNat']
    omega

/-- **Writing undoes reading.** -/
theorem toBytes_ofBytes (bytes : List UInt8) : toBytes bytes.length (ofBytes bytes) = bytes := by
  induction bytes using List.reverseRecOn with
  | nil => rfl
  | append_singleton bytes byte ih =>
    have hbyte := byte.toNat_lt
    have hhigh : (ofBytes bytes * 256 + byte.toNat) / 256 = ofBytes bytes := by omega
    have hlow : UInt8.ofNat (ofBytes bytes * 256 + byte.toNat) = byte := by
      apply UInt8.toNat_inj.mp
      rw [UInt8.toNat_ofNat']
      omega
    rw [ofBytes_concat, List.length_append, List.length_singleton, toBytes_succ, hhigh, hlow, ih]

end Catplay.Library.BigEndian

/-!
## Numbers in little-endian bytes

The `to_le_bytes` and `from_le_bytes` of machine integers: `toBytes width n` has the `width` lowest
bytes of `n`, the lowest one first, and `ofBytes` reads them back (`ofBytes_toBytes`).
-/

namespace Catplay.Library.LittleEndian

def toBytes : Nat → Nat → List UInt8
  | 0, _ => []
  | width + 1, n => UInt8.ofNat (n % 256) :: toBytes width (n / 256)

theorem toBytes_zero (n : Nat) : toBytes 0 n = [] := rfl

theorem toBytes_succ (width n : Nat) :
    toBytes (width + 1) n = UInt8.ofNat (n % 256) :: toBytes width (n / 256) := rfl

def ofBytes : List UInt8 → Nat
  | [] => 0
  | byte :: bytes => byte.toNat + 256 * ofBytes bytes

theorem ofBytes_nil : ofBytes [] = 0 := rfl

theorem ofBytes_cons (byte : UInt8) (bytes : List UInt8) :
    ofBytes (byte :: bytes) = byte.toNat + 256 * ofBytes bytes := rfl

@[simp] theorem length_toBytes (width n : Nat) : (toBytes width n).length = width := by
  induction width generalizing n with
  | zero => rfl
  | succ width ih => rw [toBytes_succ, List.length_cons, ih]

/-- **Reading back.** -/
theorem ofBytes_toBytes {width n : Nat} (h : n < 256 ^ width) : ofBytes (toBytes width n) = n := by
  induction width generalizing n with
  | zero =>
    rw [Nat.pow_zero, Nat.lt_one_iff] at h
    rw [h]
    rfl
  | succ width ih =>
    have hdiv : n / 256 < 256 ^ width := by
      rw [Nat.pow_succ] at h
      exact Nat.div_lt_of_lt_mul (by rwa [Nat.mul_comm])
    have hbyte : (UInt8.ofNat (n % 256)).toNat = n % 256 := by
      rw [UInt8.toNat_ofNat']
      exact Nat.mod_eq_of_lt (Nat.mod_lt n (by decide))
    rw [toBytes_succ, ofBytes_cons, ih hdiv, hbyte]
    exact Nat.mod_add_div n 256

theorem ofBytes_append (front back : List UInt8) :
    ofBytes (front ++ back) = ofBytes front + 256 ^ front.length * ofBytes back := by
  induction front with
  | nil => rw [List.nil_append, List.length_nil, Nat.pow_zero, Nat.one_mul, ofBytes_nil, Nat.zero_add]
  | cons byte front ih =>
    rw [List.cons_append, ofBytes_cons, ofBytes_cons, ih, List.length_cons, Nat.pow_succ]
    ring

theorem ofBytes_lt (bytes : List UInt8) : ofBytes bytes < 256 ^ bytes.length := by
  induction bytes with
  | nil => exact Nat.one_pos
  | cons byte bytes ih =>
    have hbyte := byte.toNat_lt
    rw [ofBytes_cons, List.length_cons, Nat.pow_succ]
    omega

theorem ofBytes_replicate_zero (count : Nat) : ofBytes (List.replicate count 0) = 0 := by
  induction count with
  | zero => rfl
  | succ count ih =>
    rw [List.replicate_succ, ofBytes_cons, ih]
    rfl

/-- The higher bytes. -/
theorem ofBytes_drop (bytes : List UInt8) (count : Nat) :
    ofBytes (bytes.drop count) = ofBytes bytes / 256 ^ count := by
  by_cases h : count ≤ bytes.length
  · have hlength : (bytes.take count).length = count := by rw [List.length_take, Nat.min_eq_left h]
    have hfront := ofBytes_lt (bytes.take count)
    rw [hlength] at hfront
    conv_rhs => rw [← List.take_append_drop count bytes, ofBytes_append, hlength]
    rw [Nat.add_mul_div_left _ _ (Nat.lt_of_le_of_lt (Nat.zero_le _) hfront),
      Nat.div_eq_of_lt hfront, Nat.zero_add]
  · have hsmall : ofBytes bytes < 256 ^ count :=
      Nat.lt_of_lt_of_le (ofBytes_lt bytes) (Nat.pow_le_pow_right (by decide) (by omega))
    rw [List.drop_of_length_le (by omega), Nat.div_eq_of_lt hsmall]
    rfl

/-- The lower bytes. -/
theorem ofBytes_take (bytes : List UInt8) (count : Nat) :
    ofBytes (bytes.take count) = ofBytes bytes % 256 ^ count := by
  by_cases h : count ≤ bytes.length
  · have hlength : (bytes.take count).length = count := by rw [List.length_take, Nat.min_eq_left h]
    have hfront := ofBytes_lt (bytes.take count)
    rw [hlength] at hfront
    conv_rhs => rw [← List.take_append_drop count bytes, ofBytes_append, hlength]
    rw [Nat.add_mul_mod_self_left, Nat.mod_eq_of_lt hfront]
  · have hsmall : ofBytes bytes < 256 ^ count :=
      Nat.lt_of_lt_of_le (ofBytes_lt bytes) (Nat.pow_le_pow_right (by decide) (by omega))
    rw [List.take_of_length_le (by omega), Nat.mod_eq_of_lt hsmall]

theorem toBytes_add (low high n : Nat) :
    toBytes (low + high) n = toBytes low n ++ toBytes high (n / 256 ^ low) := by
  induction low generalizing n with
  | zero => rw [Nat.zero_add, Nat.pow_zero, Nat.div_one, toBytes_zero, List.nil_append]
  | succ low ih =>
    rw [Nat.succ_add, toBytes_succ, toBytes_succ, ih, List.cons_append, Nat.div_div_eq_div_mul, Nat.pow_succ,
      Nat.mul_comm 256]

/-- Only the lowest bytes count. -/
theorem toBytes_mod (width n : Nat) : toBytes width (n % 256 ^ width) = toBytes width n := by
  induction width generalizing n with
  | zero => rfl
  | succ width ih =>
    have hlow : n % 256 ^ (width + 1) % 256 = n % 256 := by
      rw [Nat.pow_succ, Nat.mod_mul_left_mod]
    have hhigh : n % 256 ^ (width + 1) / 256 = n / 256 % 256 ^ width := by
      rw [Nat.pow_succ, Nat.mul_comm, Nat.mod_mul_right_div_self]
    rw [toBytes_succ, toBytes_succ, hlow, hhigh, ih]

end Catplay.Library.LittleEndian
