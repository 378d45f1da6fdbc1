import Mathlib.Data.List.Induction
import Mathlib.Data.Nat.Bitwise

/-!
# Bit strings and their codes

Numbers as strings of bits, and the prefix code of H.264 for them.
-/

set_option autoImplicit false

/-!
## Strings of bits

Numbers and bytes as lists of bits, the most significant bit first. `natBits n v` has the `n`
lowest bits of `v` and `ofBits` reads a number back; `bits` puts the bits of bytes one after
the other, so that a position in a bit stream is an index of the list.
-/

namespace Catplay.Library.BitString

/-! ### Numbers -/

/-- The `n` lowest bits of `v`. -/
def natBits : Nat → Nat → List Bool
  | 0, _ => []
  | n + 1, v => v.testBit n :: natBits n v

theorem natBits_succ (n v : Nat) : natBits (n + 1) v = v.testBit n :: natBits n v := rfl

/-- The number whose bits are `l`. -/
def ofBits (l : List Bool) : Nat := l.foldl (fun v b => 2 * v + b.toNat) 0

@[simp] theorem length_natBits (n v : Nat) : (natBits n v).length = n := by
  induction n with
  | zero => rfl
  | succ n ih => rw [natBits_succ, List.length_cons, ih]

theorem getElem?_natBits (n v i : Nat) :
    (natBits n v)[i]? = if i < n then some (v.testBit (n - 1 - i)) else none := by
  induction n generalizing i with
  | zero => rfl
  | succ n ih =>
    cases i with
    | zero => simp [natBits_succ]
    | succ i =>
      rw [natBits_succ, List.getElem?_cons_succ, ih]
      by_cases h : i < n
      · rw [if_pos h, if_pos (Nat.succ_lt_succ h), show n + 1 - 1 - (i + 1) = n - 1 - i by omega]
      · rw [if_neg h, if_neg fun h' => h (Nat.lt_of_succ_lt_succ h')]

/-- The lowest bit comes last. -/
theorem natBits_succ_last (n v : Nat) :
    natBits (n + 1) v = natBits n (v / 2) ++ [v.testBit 0] := by
  induction n generalizing v with
  | zero => rfl
  | succ n ih =>
    have htop : v.testBit (n + 1) = (v / 2).testBit n := Nat.testBit_succ v n
    rw [natBits_succ, ih, htop]
    rfl

@[simp] theorem ofBits_append_single (l : List Bool) (b : Bool) :
    ofBits (l ++ [b]) = 2 * ofBits l + b.toNat := by
  rw [ofBits, List.foldl_append]
  rfl

/-- **A number is what its bits say**, when there are enough of them. -/
theorem ofBits_natBits {n v : Nat} (h : v < 2 ^ n) : ofBits (natBits n v) = v := by
  induction n generalizing v with
  | zero =>
    rw [Nat.pow_zero] at h
    rw [Nat.lt_one_iff.mp h]
    rfl
  | succ n ih =>
    have hhalf : v / 2 < 2 ^ n := by
      rw [Nat.pow_succ] at h
      omega
    have hlow : (v.testBit 0).toNat = v % 2 := by
      rw [Nat.testBit_zero]
      cases Nat.mod_two_eq_zero_or_one v with
      | inl h0 => rw [h0]; rfl
      | inr h1 => rw [h1]; rfl
    rw [natBits_succ_last, ofBits_append_single, ih hhalf, hlow]
    omega

theorem ofBits_lt (l : List Bool) : ofBits l < 2 ^ l.length := by
  induction l using List.reverseRecOn with
  | nil => decide
  | append_singleton l b ih =>
    have hb : b.toNat ≤ 1 := Bool.toNat_le b
    rw [ofBits_append_single, List.length_append, List.length_singleton, Nat.pow_succ]
    omega

/-- **Bits are those of their number.** -/
theorem natBits_ofBits (l : List Bool) : natBits l.length (ofBits l) = l := by
  induction l using List.reverseRecOn with
  | nil => rfl
  | append_singleton l b ih =>
    have hhalf : (2 * ofBits l + b.toNat) / 2 = ofBits l := by
      have hb : b.toNat ≤ 1 := Bool.toNat_le b
      omega
    have hlow : (2 * ofBits l + b.toNat).testBit 0 = b := by
      rw [Nat.testBit_zero, Nat.mul_add_mod]
      cases b <;> rfl
    rw [ofBits_append_single, List.length_append, List.length_singleton, natBits_succ_last,
      hhalf, hlow, ih]

/-! ### Bytes -/

/-- The bits of bytes, one byte after the other. -/
def bits (l : List UInt8) : List Bool := l.flatMap fun b => natBits 8 b.toNat

@[simp] theorem bits_nil : bits [] = [] := rfl

theorem bits_cons (b : UInt8) (l : List UInt8) : bits (b :: l) = natBits 8 b.toNat ++ bits l :=
  List.flatMap_cons

@[simp] theorem bits_append (l m : List UInt8) : bits (l ++ m) = bits l ++ bits m :=
  List.flatMap_append

@[simp] theorem length_bits (l : List UInt8) : (bits l).length = 8 * l.length := by
  induction l with
  | nil => rfl
  | cons b l ih =>
    rw [bits_cons, List.length_append, length_natBits, ih, List.length_cons]
    omega

/-- **The bit at a position** is in the byte that holds it. -/
theorem getElem?_bits (l : List UInt8) (i : Nat) :
    (bits l)[i]? = (l[i / 8]?).map fun b => b.toNat.testBit (7 - i % 8) := by
  induction l generalizing i with
  | nil => rfl
  | cons b l ih =>
    rw [bits_cons]
    by_cases h : i < 8
    · rw [List.getElem?_append_left (by rw [length_natBits]; exact h), getElem?_natBits, if_pos h,
        Nat.div_eq_of_lt h, Nat.mod_eq_of_lt h]
      rfl
    · obtain ⟨j, rfl⟩ : ∃ j, i = j + 8 := ⟨i - 8, by omega⟩
      rw [List.getElem?_append_right (by rw [length_natBits]; omega), length_natBits,
        Nat.add_sub_cancel, ih, Nat.add_div_right j (by omega), Nat.add_mod_right,
        List.getElem?_cons_succ]

theorem bits_drop (l : List UInt8) (k : Nat) : bits (l.drop k) = (bits l).drop (8 * k) := by
  by_cases h : k ≤ l.length
  · have hsplit := List.take_append_drop k l
    have hlen : (bits (l.take k)).length = 8 * k := by
      rw [length_bits, List.length_take, Nat.min_eq_left h]
    conv_rhs => rw [← hsplit, bits_append]
    rw [List.drop_left' hlen]
  · rw [List.drop_of_length_le (by omega), List.drop_of_length_le (by rw [length_bits]; omega)]
    rfl

/-- Setting one bit of a byte sets one bit of the stream. -/
theorem bits_set {l : List UInt8} {i j : Nat} {b c : UInt8} (hi : l[i]? = some b) (hj : j < 8)
    (hc : ∀ k, k < 8 → c.toNat.testBit k = if k = 7 - j then true else b.toNat.testBit k) :
    bits (l.set i c) = (bits l).set (8 * i + j) true := by
  have hlt : i < l.length := (List.getElem?_eq_some_iff.mp hi).1
  apply List.ext_getElem?
  intro p
  rw [getElem?_bits, List.getElem?_set, List.getElem?_set, getElem?_bits, length_bits]
  by_cases hbyte : i = p / 8
  · rw [if_pos hbyte, if_pos hlt, ← hbyte, hi, Option.map_some, Option.map_some,
      hc _ (by omega)]
    by_cases hbit : 8 * i + j = p
    · rw [if_pos hbit, if_pos (by omega), if_pos (by omega)]
    · rw [if_neg hbit, if_neg (by omega)]
  · rw [if_neg hbyte, if_neg (by omega)]

end Catplay.Library.BitString

/-!
## Exponential Golomb codes

The code `ue(v)` of a number is `k` zeros and the `k + 1` bits of `v + 1`, and `se(v)` codes an
integer as the number `seNum`. The code is a prefix code: `decodeUe` reads `v` if and only if
the bits begin with the code of `v` (`decodeUe_eq_some`).
-/

namespace Catplay.Library.ExpGolomb

open Catplay.Library.BitString

/-- The number of zeros in front. -/
def zeros (v : Nat) : Nat := (v + 1).log2

/-- `ue(v)`. -/
def ueCode (v : Nat) : List Bool := List.replicate (zeros v) false ++ natBits (zeros v + 1) (v + 1)

/-- The number that stands for an integer in `se(v)`. -/
def seNum (k : Int) : Nat := if k ≤ 0 then 2 * k.natAbs else 2 * k.natAbs - 1

/-- The integer that a number stands for. -/
def seValue (n : Nat) : Int := if n % 2 = 0 then -((n / 2 : Nat) : Int) else ((n + 1) / 2 : Nat)

/-- `se(v)`. -/
def seCode (k : Int) : List Bool := ueCode (seNum k)

/-- Read the code in front of `l`, behind `k` zeros of it. -/
def decodeFrom : Nat → List Bool → Option Nat
  | _, [] => none
  | k, false :: l => decodeFrom (k + 1) l
  | k, true :: l =>
    if (l.take k).length = k then some (ofBits (true :: l.take k) - 1) else none

def decodeUe (l : List Bool) : Option Nat := decodeFrom 0 l

@[simp] theorem length_ueCode (v : Nat) : (ueCode v).length = 2 * zeros v + 1 := by
  rw [ueCode, List.length_append, List.length_replicate, length_natBits]
  omega

theorem succ_lt (v : Nat) : v + 1 < 2 ^ (zeros v + 1) := Nat.lt_log2_self

theorem pow_zeros_le (v : Nat) : 2 ^ zeros v ≤ v + 1 := Nat.log2_self_le (Nat.succ_ne_zero v)

/-- Numbers of `n` bits have no more than `n` zeros in front. -/
theorem zeros_le {v n : Nat} (h : v < 2 ^ n) : zeros v ≤ n := by
  have hle := Nat.le_trans (pow_zeros_le v) h
  exact (Nat.pow_le_pow_iff_right (by omega)).mp hle

/-- The first digit is a one. -/
theorem natBits_top (v : Nat) :
    natBits (zeros v + 1) (v + 1) = true :: natBits (zeros v) (v + 1) := by
  have htop : (v + 1).testBit (zeros v) = true := by
    have hdiv : (v + 1) / 2 ^ zeros v = 1 := by
      have hlo := pow_zeros_le v
      have hhi := succ_lt v
      rw [Nat.pow_succ] at hhi
      exact (Nat.div_eq_iff (Nat.two_pow_pos _)).mpr (by omega)
    rw [Nat.testBit_eq_decide_div_mod_eq, hdiv]
    rfl
  rw [natBits_succ, htop]

theorem ueCode_eq (v : Nat) :
    ueCode v = List.replicate (zeros v) false ++ true :: natBits (zeros v) (v + 1) := by
  rw [ueCode, natBits_top]

theorem seValue_seNum (k : Int) : seValue (seNum k) = k := by
  unfold seValue seNum
  by_cases h : k ≤ 0
  · rw [if_pos h, if_pos (by omega)]
    omega
  · rw [if_neg h, if_neg (by omega)]
    omega

theorem seNum_seValue (n : Nat) : seNum (seValue n) = n := by
  unfold seValue seNum
  by_cases h : n % 2 = 0
  · rw [if_pos h, if_pos (by omega)]
    omega
  · rw [if_neg h, if_neg (by omega)]
    omega

/-! ### Reading a code -/

/-- The code of the number whose digits behind the first one are given. -/
theorem ueCode_digits (digits : List Bool) :
    ueCode (ofBits (true :: digits) - 1) =
      List.replicate digits.length false ++ true :: digits := by
  have hbits := natBits_ofBits (true :: digits)
  rw [List.length_cons] at hbits
  have hge : 2 ^ digits.length ≤ ofBits (true :: digits) := by
    rw [natBits_succ] at hbits
    exact Nat.ge_two_pow_of_testBit (List.cons.inj hbits).1
  have hlt : ofBits (true :: digits) < 2 ^ (digits.length + 1) := ofBits_lt (true :: digits)
  have hsucc : ofBits (true :: digits) - 1 + 1 = ofBits (true :: digits) := by
    have hpos := Nat.two_pow_pos digits.length
    omega
  have hzeros : zeros (ofBits (true :: digits) - 1) = digits.length := by
    unfold zeros
    rw [hsucc]
    exact (Nat.log2_eq_iff (by omega)).mpr ⟨hge, hlt⟩
  rw [ueCode, hzeros, hsucc, hbits]

theorem decodeFrom_eq_some {k : Nat} {l : List Bool} {v : Nat} :
    decodeFrom k l = some v ↔
      ∃ m digits rest, l = List.replicate m false ++ true :: (digits ++ rest) ∧
        digits.length = k + m ∧ v = ofBits (true :: digits) - 1 := by
  induction l generalizing k with
  | nil =>
    constructor
    · intro h
      cases h
    · rintro ⟨m, digits, rest, h, -, -⟩
      exact absurd h.symm (by simp)
  | cons b l ih =>
    cases b with
    | false =>
      rw [decodeFrom, ih]
      constructor
      · rintro ⟨m, digits, rest, rfl, hlen, hv⟩
        exact ⟨m + 1, digits, rest, rfl, by omega, hv⟩
      · rintro ⟨m, digits, rest, hl, hlen, hv⟩
        cases m with
        | zero => cases (List.cons.inj hl).1
        | succ m => exact ⟨m, digits, rest, (List.cons.inj hl).2, by omega, hv⟩
    | true =>
      rw [decodeFrom]
      constructor
      · intro h
        split at h
        · rename_i hlen
          refine ⟨0, l.take k, l.drop k, ?_, hlen, (Option.some.inj h).symm⟩
          rw [List.take_append_drop]
          rfl
        · cases h
      · rintro ⟨m, digits, rest, hl, hlen, hv⟩
        cases m with
        | zero =>
          rw [Nat.add_zero] at hlen
          have htake : l.take k = digits := by
            rw [(List.cons.inj hl).2]
            exact List.take_left' hlen
          rw [htake, if_pos hlen, hv]
        | succ m => cases (List.cons.inj hl).1

/-- **The number that is read is the one whose code is there.** -/
theorem decodeUe_eq_some {l : List Bool} {v : Nat} : decodeUe l = some v ↔ ueCode v <+: l := by
  unfold decodeUe
  rw [decodeFrom_eq_some]
  constructor
  · rintro ⟨m, digits, rest, rfl, hlen, rfl⟩
    refine ⟨rest, ?_⟩
    rw [ueCode_digits, hlen, Nat.zero_add, List.append_assoc]
    rfl
  · rintro ⟨rest, rfl⟩
    refine ⟨zeros v, natBits (zeros v) (v + 1), rest, ?_, by simp, ?_⟩
    · rw [ueCode_eq, List.append_assoc]
      rfl
    · rw [← natBits_top, ofBits_natBits (succ_lt v)]
      rfl

end Catplay.Library.ExpGolomb
