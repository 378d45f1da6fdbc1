import Catplay.Library.ChaChaPoly
import Catplay.Model.Hap.FastChacha

/-!
# Poly1305 in limbs

The state of Poly1305 keeps numbers in limbs of 26 bits. A block is added (`addBlock_spec`) and the
sum multiplied by the key (`multiply_spec`) as the polynomial says, and no sum or product on the way
overflows.
-/

set_option autoImplicit false

namespace Catplay.Analysis.Hap

open Catplay.Model.Hap Catplay.Library Catplay.Library.ChaChaPoly
open Catplay.Model.Hap.Poly1305State

/-! ## Limbs -/

theorem toNat_and_limbMask (x : UInt32) : (x &&& limbMask).toNat = x.toNat % 2 ^ 26 := by
  rw [UInt32.toNat_and]
  exact Nat.and_two_pow_sub_one_eq_mod x.toNat 26

theorem toNat_shiftRight (x : UInt32) {n : Nat} (h : n < 32) :
    (x >>> .ofNat n).toNat = x.toNat / 2 ^ n := by
  have hn : (UInt32.ofNat n).toNat % 32 = n := by
    rw [UInt32.toNat_ofNat_of_lt' (Nat.lt_of_lt_of_le h (by decide)), Nat.mod_eq_of_lt h]
  rw [UInt32.toNat_shiftRight, hn, Nat.shiftRight_eq_div_pow]

theorem toNat_shiftRight64 (x : UInt64) {n : Nat} (h : n < 64) :
    (x >>> .ofNat n).toNat = x.toNat / 2 ^ n := by
  have hn : (UInt64.ofNat n).toNat % 64 = n := by
    rw [UInt64.toNat_ofNat_of_lt' (Nat.lt_of_lt_of_le h (by decide)), Nat.mod_eq_of_lt h]
  rw [UInt64.toNat_shiftRight, hn, Nat.shiftRight_eq_div_pow]

theorem toNat_shiftLeft (x : UInt32) {n : Nat} (h : n < 32) :
    (x <<< .ofNat n).toNat = x.toNat * 2 ^ n % 2 ^ 32 := by
  have hn : (UInt32.ofNat n).toNat % 32 = n := by
    rw [UInt32.toNat_ofNat_of_lt' (Nat.lt_of_lt_of_le h (by decide)), Nat.mod_eq_of_lt h]
  rw [UInt32.toNat_shiftLeft, hn, Nat.shiftLeft_eq]

theorem toNat_add {a b : UInt32} (h : a.toNat + b.toNat < 2 ^ 32) :
    (a + b).toNat = a.toNat + b.toNat := by
  rw [UInt32.toNat_add, Nat.mod_eq_of_lt h]

theorem toNat_add64 {a b : UInt64} (h : a.toNat + b.toNat < 2 ^ 64) :
    (a + b).toNat = a.toNat + b.toNat := by
  rw [UInt64.toNat_add, Nat.mod_eq_of_lt h]

/-- A word of some bytes, as a part of their number. -/
theorem toNat_wordAt (bytes : List UInt8) (position : Nat) :
    (wordAt bytes position).toNat = LittleEndian.ofBytes bytes / 256 ^ position % 256 ^ 4 := by
  unfold wordAt
  rw [LittleEndian.ofBytes_take, LittleEndian.ofBytes_drop]
  exact UInt32.toNat_ofNat_of_lt' (Nat.mod_lt _ (by decide))

/-! ## A product of limbs -/

/-- Five products of limbs do not overflow. -/
theorem toNat_dot {a0 a1 a2 a3 a4 b0 b1 b2 b3 b4 : UInt64}
    (ha : a0.toNat < 2 ^ 28 ∧ a1.toNat < 2 ^ 28 ∧ a2.toNat < 2 ^ 28 ∧ a3.toNat < 2 ^ 28 ∧
      a4.toNat < 2 ^ 28)
    (hb : b0.toNat < 2 ^ 29 ∧ b1.toNat < 2 ^ 29 ∧ b2.toNat < 2 ^ 29 ∧ b3.toNat < 2 ^ 29 ∧
      b4.toNat < 2 ^ 29) :
    (a0 * b0 + a1 * b1 + a2 * b2 + a3 * b3 + a4 * b4).toNat =
      a0.toNat * b0.toNat + a1.toNat * b1.toNat + a2.toNat * b2.toNat + a3.toNat * b3.toNat +
        a4.toNat * b4.toNat := by
  have hproduct : ∀ {a b : UInt64}, a.toNat < 2 ^ 28 → b.toNat < 2 ^ 29 →
      (a * b).toNat = a.toNat * b.toNat ∧ a.toNat * b.toNat < 2 ^ 57 := by
    intro a b ha hb
    have hlt : a.toNat * b.toNat < 2 ^ 28 * 2 ^ 29 := Nat.mul_lt_mul'' ha hb
    exact ⟨by rw [UInt64.toNat_mul, Nat.mod_eq_of_lt (by omega)], by omega⟩
  obtain ⟨ha0, ha1, ha2, ha3, ha4⟩ := ha
  obtain ⟨hb0, hb1, hb2, hb3, hb4⟩ := hb
  obtain ⟨h0, hlt0⟩ := hproduct ha0 hb0
  obtain ⟨h1, hlt1⟩ := hproduct ha1 hb1
  obtain ⟨h2, hlt2⟩ := hproduct ha2 hb2
  obtain ⟨h3, hlt3⟩ := hproduct ha3 hb3
  obtain ⟨h4, hlt4⟩ := hproduct ha4 hb4
  have h01 : (a0 * b0 + a1 * b1).toNat = a0.toNat * b0.toNat + a1.toNat * b1.toNat := by
    rw [toNat_add64 (by omega), h0, h1]
  have h012 : (a0 * b0 + a1 * b1 + a2 * b2).toNat =
      a0.toNat * b0.toNat + a1.toNat * b1.toNat + a2.toNat * b2.toNat := by
    rw [toNat_add64 (by omega), h01, h2]
  have h0123 : (a0 * b0 + a1 * b1 + a2 * b2 + a3 * b3).toNat =
      a0.toNat * b0.toNat + a1.toNat * b1.toNat + a2.toNat * b2.toNat + a3.toNat * b3.toNat := by
    rw [toNat_add64 (by omega), h012, h3]
  rw [toNat_add64 (by omega), h0123, h4]

/-! ## The carries of a block -/

/-- The lowest limb of a number of 64 bits, and what is carried on. -/
theorem toNat_low (d : UInt64) : (d.toUInt32 &&& limbMask).toNat = d.toNat % 2 ^ 26 := by
  rw [toNat_and_limbMask, UInt64.toNat_toUInt32]
  omega

theorem toNat_high {d : UInt64} (h : d.toNat < 2 ^ 58) :
    (d >>> 26).toUInt32.toNat = d.toNat / 2 ^ 26 := by
  have hshift : (d >>> 26).toNat = d.toNat / 2 ^ 26 := toNat_shiftRight64 d (by decide : 26 < 64)
  rw [UInt64.toNat_toUInt32, hshift]
  omega

theorem toNat_carried {d next : UInt64} (h : d.toNat < 27 * 2 ^ 53)
    (hnext : next.toNat < 2 ^ 58) :
    (next + (d >>> 26).toUInt32.toUInt64).toNat = next.toNat + d.toNat / 2 ^ 26 := by
  have hshift : (d >>> 26).toNat = d.toNat / 2 ^ 26 := toNat_shiftRight64 d (by decide : 26 < 64)
  have hhigh : (d >>> 26).toUInt32.toUInt64.toNat = d.toNat / 2 ^ 26 := by
    rw [UInt32.toNat_toUInt64, UInt64.toNat_toUInt32, hshift]
    omega
  rw [toNat_add64 (by rw [hhigh]; omega), hhigh]

/-- Limbs split into what stays, `r`, and what is carried on, `q`: the number is the same, except
that the last carry comes back five times in the first limb. -/
theorem carried_eq {x1 x2 x3 x4 r0 r1 r2 r3 r4 q0 q1 q2 q3 q4 s t : Nat}
    (h1 : r1 + 2 ^ 26 * q1 = x1 + q0) (h2 : r2 + 2 ^ 26 * q2 = x2 + q1)
    (h3 : r3 + 2 ^ 26 * q3 = x3 + q2) (h4 : r4 + 2 ^ 26 * q4 = x4 + q3)
    (hs : s + 2 ^ 26 * t = r0 + q4 * 5) :
    r0 + 2 ^ 26 * q0 + 2 ^ 26 * x1 + 2 ^ 52 * x2 + 2 ^ 78 * x3 + 2 ^ 104 * x4 =
      s + 2 ^ 26 * (r1 + t) + 2 ^ 52 * r2 + 2 ^ 78 * r3 + 2 ^ 104 * r4 + q4 * prime := by
  unfold prime
  omega

/-- **The carries keep the number**, up to a multiple of the prime. -/
theorem carry_spec {d : Vector UInt64 5} (h : Products d) :
    Settled (carry d) ∧ ∃ k, value64 d = value (carry d) + k * prime := by
  obtain ⟨h0, h1, h2, h3, h4⟩ := h
  set d1 := d[1] + (d[0] >>> 26).toUInt32.toUInt64 with hd1
  set d2 := d[2] + (d1 >>> 26).toUInt32.toUInt64 with hd2
  set d3 := d[3] + (d2 >>> 26).toUInt32.toUInt64 with hd3
  set d4 := d[4] + (d3 >>> 26).toUInt32.toUInt64 with hd4
  have e1 : d1.toNat = d[1].toNat + d[0].toNat / 2 ^ 26 := toNat_carried (by omega) (by omega)
  have e2 : d2.toNat = d[2].toNat + d1.toNat / 2 ^ 26 := toNat_carried (by omega) (by omega)
  have e3 : d3.toNat = d[3].toNat + d2.toNat / 2 ^ 26 := toNat_carried (by omega) (by omega)
  have e4 : d4.toNat = d[4].toNat + d3.toNat / 2 ^ 26 := toNat_carried (by omega) (by omega)
  set h0' := (d[0].toUInt32 &&& limbMask) + (d4 >>> 26).toUInt32 * 5 with hh0
  have hc : (d4 >>> 26).toUInt32.toNat = d4.toNat / 2 ^ 26 := toNat_high (by omega)
  have hfive : ((d4 >>> 26).toUInt32 * 5).toNat = d4.toNat / 2 ^ 26 * 5 := by
    rw [UInt32.toNat_mul, hc]
    exact Nat.mod_eq_of_lt (by show d4.toNat / 2 ^ 26 * 5 < 2 ^ 32; omega)
  have e0 : h0'.toNat = d[0].toNat % 2 ^ 26 + d4.toNat / 2 ^ 26 * 5 := by
    rw [hh0, toNat_add (by rw [toNat_low, hfive]; omega), toNat_low, hfive]
  have hshift : (h0' >>> 26).toNat = h0'.toNat / 2 ^ 26 :=
    toNat_shiftRight h0' (by decide : 26 < 32)
  have o0 : (carry d)[0].toNat = h0'.toNat % 2 ^ 26 := toNat_and_limbMask h0'
  have o1 : (carry d)[1].toNat = d1.toNat % 2 ^ 26 + h0'.toNat / 2 ^ 26 := by
    show ((d1.toUInt32 &&& limbMask) + (h0' >>> 26)).toNat = _
    rw [toNat_add (by rw [toNat_low, hshift]; omega), toNat_low, hshift]
  have o2 : (carry d)[2].toNat = d2.toNat % 2 ^ 26 := toNat_low d2
  have o3 : (carry d)[3].toNat = d3.toNat % 2 ^ 26 := toNat_low d3
  have o4 : (carry d)[4].toNat = d4.toNat % 2 ^ 26 := toNat_low d4
  refine ⟨⟨by omega, by omega, by omega, by omega, by omega⟩, d4.toNat / 2 ^ 26, ?_⟩
  unfold value value64
  rw [o0, o1, o2, o3, o4]
  conv_lhs => rw [← Nat.mod_add_div d[0].toNat (2 ^ 26)]
  apply carried_eq
  · rw [Nat.mod_add_div, e1]
  · rw [Nat.mod_add_div, e2]
  · rw [Nat.mod_add_div, e3]
  · rw [Nat.mod_add_div, e4]
  · rw [Nat.mod_add_div, e0]

/-! ## The product of a block -/

theorem toNat_five {x : UInt32} (h : x.toNat < 2 ^ 26) : (x * 5).toUInt64.toNat = x.toNat * 5 := by
  rw [UInt32.toNat_toUInt64, UInt32.toNat_mul]
  exact Nat.mod_eq_of_lt (by show x.toNat * 5 < 2 ^ 32; omega)

/-- A product of a limb and a limb of `r`, or five times one. -/
theorem product_le {a b : Nat} (ha : a < 2 ^ 27 + 2 ^ 7) (hb : b < 2 ^ 26) :
    a * b ≤ (2 ^ 27 + 2 ^ 7) * 2 ^ 26 := Nat.mul_le_mul (Nat.le_of_lt ha) (Nat.le_of_lt hb)

theorem product_five_le {a b : Nat} (ha : a < 2 ^ 27 + 2 ^ 7) (hb : b < 2 ^ 26) :
    a * (b * 5) ≤ (2 ^ 27 + 2 ^ 7) * (2 ^ 26 * 5) :=
  Nat.mul_le_mul (Nat.le_of_lt ha) (Nat.mul_le_mul_right 5 (Nat.le_of_lt hb))

theorem toNat_five_lt {x : UInt32} (h : x.toNat < 2 ^ 26) : (x * 5).toUInt64.toNat < 2 ^ 29 := by
  rw [toNat_five h]
  omega

theorem toNat_limb_lt {x : UInt32} (h : x.toNat < 2 ^ 26) : x.toUInt64.toNat < 2 ^ 29 := by
  rw [UInt32.toNat_toUInt64]
  omega

theorem multiplied {h r : Vector UInt32 5} (hh : Added h) (hr : Reduced r) :
    Multiplied h r (multiply h r) := by
  obtain ⟨hr0, hr1, hr2, hr3, hr4⟩ := hr
  have hadded : ∀ {x : UInt32}, x.toNat < 2 ^ 27 + 2 ^ 7 → x.toUInt64.toNat < 2 ^ 28 := by
    intro x hx
    rw [UInt32.toNat_toUInt64]
    omega
  have hha := And.intro (hadded hh.limb0) <| And.intro (hadded hh.limb1) <|
    And.intro (hadded hh.limb2) <| And.intro (hadded hh.limb3) (hadded hh.limb4)
  -- the limbs of `r`, and five times them
  have l0 := toNat_limb_lt hr0
  have l1 := toNat_limb_lt hr1
  have l2 := toNat_limb_lt hr2
  have l3 := toNat_limb_lt hr3
  have l4 := toNat_limb_lt hr4
  have f1 := toNat_five_lt hr1
  have f2 := toNat_five_lt hr2
  have f3 := toNat_five_lt hr3
  have f4 := toNat_five_lt hr4
  have d0 := toNat_dot hha ⟨l0, f4, f3, f2, f1⟩
  have d1 := toNat_dot hha ⟨l1, l0, f4, f3, f2⟩
  have d2 := toNat_dot hha ⟨l2, l1, l0, f4, f3⟩
  have d3 := toNat_dot hha ⟨l3, l2, l1, l0, f4⟩
  have d4 := toNat_dot hha ⟨l4, l3, l2, l1, l0⟩
  simp only [toNat_five hr1, toNat_five hr2, toNat_five hr3, toNat_five hr4,
    UInt32.toNat_toUInt64] at d0 d1 d2 d3 d4
  exact ⟨d0, d1, d2, d3, d4⟩

theorem products {h r : Vector UInt32 5} {d : Vector UInt64 5} (hh : Added h) (hr : Reduced r)
    (hd : Multiplied h r d) : Products d := by
  obtain ⟨hh0, hh1, hh2, hh3, hh4⟩ := hh
  obtain ⟨hr0, hr1, hr2, hr3, hr4⟩ := hr
  obtain ⟨d0, d1, d2, d3, d4⟩ := hd
  refine ⟨?_, ?_, ?_, ?_, ?_⟩
  · have p0 := product_le hh0 hr0
    have p1 := product_five_le hh1 hr4
    have p2 := product_five_le hh2 hr3
    have p3 := product_five_le hh3 hr2
    have p4 := product_five_le hh4 hr1
    omega
  · have p0 := product_le hh0 hr1
    have p1 := product_le hh1 hr0
    have p2 := product_five_le hh2 hr4
    have p3 := product_five_le hh3 hr3
    have p4 := product_five_le hh4 hr2
    omega
  · have p0 := product_le hh0 hr2
    have p1 := product_le hh1 hr1
    have p2 := product_le hh2 hr0
    have p3 := product_five_le hh3 hr4
    have p4 := product_five_le hh4 hr3
    omega
  · have p0 := product_le hh0 hr3
    have p1 := product_le hh1 hr2
    have p2 := product_le hh2 hr1
    have p3 := product_le hh3 hr0
    have p4 := product_five_le hh4 hr4
    omega
  · have p0 := product_le hh0 hr4
    have p1 := product_le hh1 hr3
    have p2 := product_le hh2 hr2
    have p3 := product_le hh3 hr1
    have p4 := product_le hh4 hr0
    omega

/-- What is five times in a product stands for `2 ^ 130` times. -/
theorem product_folded (a b c d e v w x y z : Nat) :
    (a + 2 ^ 26 * b + 2 ^ 52 * c + 2 ^ 78 * d + 2 ^ 104 * e) *
        (v + 2 ^ 26 * w + 2 ^ 52 * x + 2 ^ 78 * y + 2 ^ 104 * z) =
      (a * v + b * (z * 5) + c * (y * 5) + d * (x * 5) + e * (w * 5)) +
        2 ^ 26 * (a * w + b * v + c * (z * 5) + d * (y * 5) + e * (x * 5)) +
        2 ^ 52 * (a * x + b * w + c * v + d * (z * 5) + e * (y * 5)) +
        2 ^ 78 * (a * y + b * x + c * w + d * v + e * (z * 5)) +
        2 ^ 104 * (a * z + b * y + c * x + d * w + e * v) +
      (b * z + c * y + d * x + e * w + 2 ^ 26 * (c * z + d * y + e * x) +
        2 ^ 52 * (d * z + e * y) + 2 ^ 78 * (e * z)) * 1361129467683753853853498429727072845819 := by
  ring

/-- **The product of limbs is the product of the numbers**, up to a multiple of the prime. -/
theorem multiply_spec {h r : Vector UInt32 5} (hh : Added h) (hr : Reduced r) :
    Products (multiply h r) ∧ ∃ k, value h * value r = value64 (multiply h r) + k * prime := by
  have hd := multiplied hh hr
  refine ⟨products hh hr hd, ?_⟩
  have hprime : prime = 1361129467683753853853498429727072845819 := by decide
  unfold value value64
  rw [hd.limb0, hd.limb1, hd.limb2, hd.limb3, hd.limb4, hprime]
  exact ⟨_, product_folded _ _ _ _ _ _ _ _ _ _⟩

/-! ## A block -/

/-- The limb that starts at bit `s` of a word of a number. -/
theorem limb_of_word (n p : Nat) {s : Nat} (hs : s ≤ 6) :
    n / 256 ^ p % 256 ^ 4 / 2 ^ s % 2 ^ 26 = n / (256 ^ p * 2 ^ s) % 2 ^ 26 := by
  have hword : 256 ^ 4 = 2 ^ s * 2 ^ (32 - s) := by
    rw [← Nat.pow_add, Nat.add_sub_cancel' (by omega)]
    rfl
  rw [hword, Nat.mod_mul_right_div_self, Nat.mod_mod_of_dvd _ (Nat.pow_dvd_pow 2 (by omega)),
    Nat.div_div_eq_div_mul]

theorem toNat_limb (block : List UInt8) (p : Nat) {s : Nat} (hs : s ≤ 6) :
    ((wordAt block p >>> .ofNat s) &&& limbMask).toNat =
      LittleEndian.ofBytes block / (256 ^ p * 2 ^ s) % 2 ^ 26 := by
  rw [toNat_and_limbMask, toNat_shiftRight _ (by omega), toNat_wordAt, limb_of_word _ _ hs]

/-- A number is the sum of its limbs. -/
theorem sum_limbs (n : Nat) :
    n % 2 ^ 26 + 2 ^ 26 * (n / 2 ^ 26 % 2 ^ 26) + 2 ^ 52 * (n / 2 ^ 52 % 2 ^ 26) +
      2 ^ 78 * (n / 2 ^ 78 % 2 ^ 26) + 2 ^ 104 * (n / 2 ^ 104) = n := by
  have hnext : ∀ k, n / 2 ^ k % 2 ^ 26 + 2 ^ 26 * (n / 2 ^ (k + 26)) = n / 2 ^ k := by
    intro k
    rw [Nat.pow_add, ← Nat.div_div_eq_div_mul, Nat.mod_add_div]
  calc
    _ = n % 2 ^ 26 + 2 ^ 26 * (n / 2 ^ 26 % 2 ^ 26 + 2 ^ 26 * (n / 2 ^ 52 % 2 ^ 26 +
          2 ^ 26 * (n / 2 ^ 78 % 2 ^ 26 + 2 ^ 26 * (n / 2 ^ 104)))) := by ring
    _ = n := by rw [hnext 78, hnext 52, hnext 26, Nat.mod_add_div]

theorem sum_added (a b c d e v w x y z f : Nat) :
    a + v + 2 ^ 26 * (b + w) + 2 ^ 52 * (c + x) + 2 ^ 78 * (d + y) + 2 ^ 104 * (e + (z + f)) =
      a + 2 ^ 26 * b + 2 ^ 52 * c + 2 ^ 78 * d + 2 ^ 104 * e +
        (v + 2 ^ 26 * w + 2 ^ 52 * x + 2 ^ 78 * y + 2 ^ 104 * z) + 2 ^ 104 * f := by
  ring

/-- A limb of the state and one of a block. -/
theorem toNat_addLimb {h x : UInt32} {n : Nat} (hh : h.toNat < 2 ^ 26 + 2 ^ 7)
    (hx : x.toNat = n % 2 ^ 26) :
    (h + x).toNat = h.toNat + n % 2 ^ 26 ∧ h.toNat + n % 2 ^ 26 < 2 ^ 27 + 2 ^ 7 := by
  have hlt : n % 2 ^ 26 < 2 ^ 26 := Nat.mod_lt n (by decide)
  exact ⟨by rw [toNat_add (by omega), hx], by omega⟩

/-- **The limbs of a block** are those of its number. -/
theorem addBlock_spec {h : Vector UInt32 5} (hh : Settled h) {block : List UInt8}
    (hblock : block.length = 16) (isPartial : Bool) :
    Added (addBlock h block isPartial) ∧
      value (addBlock h block isPartial) =
        value h + LittleEndian.ofBytes block + if isPartial then 0 else 2 ^ 128 := by
  obtain ⟨hh0, hh1, hh2, hh3, hh4⟩ := hh
  have hlt := LittleEndian.ofBytes_lt block
  rw [hblock] at hlt
  set n := LittleEndian.ofBytes block with hn
  have m0 : (wordAt block 0 &&& limbMask).toNat = n % 2 ^ 26 := by
    rw [toNat_and_limbMask, toNat_wordAt, Nat.pow_zero, Nat.div_one]
    exact Nat.mod_mod_of_dvd _ (Nat.pow_dvd_pow 2 (by decide : 26 ≤ 32))
  have m1 : ((wordAt block 3 >>> 2) &&& limbMask).toNat = n / 2 ^ 26 % 2 ^ 26 :=
    toNat_limb block 3 (by decide : 2 ≤ 6)
  have m2 : ((wordAt block 6 >>> 4) &&& limbMask).toNat = n / 2 ^ 52 % 2 ^ 26 :=
    toNat_limb block 6 (by decide : 4 ≤ 6)
  have m3 : ((wordAt block 9 >>> 6) &&& limbMask).toNat = n / 2 ^ 78 % 2 ^ 26 :=
    toNat_limb block 9 (by decide : 6 ≤ 6)
  have hsmall : n / 2 ^ 104 < 2 ^ 24 := Nat.div_lt_of_lt_mul hlt
  have hlast : (wordAt block 12 >>> 8).toNat = n / 2 ^ 104 := by
    have hshift : (wordAt block 12 >>> 8).toNat = (wordAt block 12).toNat / 2 ^ 8 :=
      toNat_shiftRight _ (by decide : 8 < 32)
    have hword : n / 256 ^ 12 < 256 ^ 4 := Nat.div_lt_of_lt_mul hlt
    rw [hshift, toNat_wordAt, Nat.mod_eq_of_lt hword, Nat.div_div_eq_div_mul]
    rfl
  have m4 : ((wordAt block 12 >>> 8) ||| (if isPartial then 0 else 0x1000000)).toNat =
      n / 2 ^ 104 + if isPartial then 0 else 2 ^ 24 := by
    cases isPartial with
    | true =>
      simp only [if_true, UInt32.or_zero, Nat.add_zero]
      exact hlast
    | false =>
      simp only [Bool.false_eq_true, if_false]
      rw [UInt32.toNat_or, hlast]
      exact (Nat.or_comm _ _).trans <|
        (Nat.two_pow_add_eq_or_of_lt hsmall 1).symm.trans (Nat.add_comm _ _)
  have hlimb4 : h[4].toNat + (n / 2 ^ 104 + if isPartial then 0 else 2 ^ 24) < 2 ^ 27 + 2 ^ 7 := by
    split <;> omega
  obtain ⟨a0, b0⟩ := toNat_addLimb (Nat.lt_add_right _ hh0) m0
  obtain ⟨a1, b1⟩ := toNat_addLimb hh1 m1
  obtain ⟨a2, b2⟩ := toNat_addLimb (Nat.lt_add_right _ hh2) m2
  obtain ⟨a3, b3⟩ := toNat_addLimb (Nat.lt_add_right _ hh3) m3
  have l0 : (addBlock h block isPartial)[0].toNat = h[0].toNat + n % 2 ^ 26 := a0
  have l1 : (addBlock h block isPartial)[1].toNat = h[1].toNat + n / 2 ^ 26 % 2 ^ 26 := a1
  have l2 : (addBlock h block isPartial)[2].toNat = h[2].toNat + n / 2 ^ 52 % 2 ^ 26 := a2
  have l3 : (addBlock h block isPartial)[3].toNat = h[3].toNat + n / 2 ^ 78 % 2 ^ 26 := a3
  have l4 : (addBlock h block isPartial)[4].toNat =
      h[4].toNat + (n / 2 ^ 104 + if isPartial then 0 else 2 ^ 24) := by
    show (h[4] + ((wordAt block 12 >>> 8) ||| _)).toNat = _
    rw [toNat_add (by rw [m4]; exact Nat.lt_trans hlimb4 (by decide)), m4]
  refine ⟨⟨l0.trans_lt b0, l1.trans_lt b1, l2.trans_lt b2, l3.trans_lt b3, l4.trans_lt hlimb4⟩, ?_⟩
  unfold value
  rw [l0, l1, l2, l3, l4, sum_added, sum_limbs]
  cases isPartial <;> rfl

end Catplay.Analysis.Hap
