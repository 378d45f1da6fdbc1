import Catplay.Analysis.Hap.Poly1305
import Catplay.Analysis.Hap.Streams

/-!
# The tag

The key is clamped limb by limb, and the tag is the number of the limbs, reduced once, with the
second half of the key added. So `FastPoly1305` over any pieces is Poly1305 of the whole
(`finalize_update`).
-/

set_option autoImplicit false

namespace Catplay.Analysis.Hap

open Catplay.Model.Hap Catplay.Library Catplay.Library.ChaChaPoly
open Catplay.Model.Hap.Poly1305State

/-! ## The key -/

/-- A mask in two parts. -/
theorem and_split (x low high : Nat) {k : Nat} (h : low < 2 ^ k) :
    x &&& (2 ^ k * high + low) = 2 ^ k * (x / 2 ^ k &&& high) + (x % 2 ^ k &&& low) := by
  have hand : x % 2 ^ k &&& low < 2 ^ k :=
    Nat.lt_of_le_of_lt Nat.and_le_left (Nat.mod_lt _ (Nat.two_pow_pos k))
  apply Nat.eq_of_testBit_eq
  intro i
  rw [Nat.testBit_and, Nat.testBit_two_pow_mul_add _ h, Nat.testBit_two_pow_mul_add _ hand]
  by_cases hi : i < k
  · rw [if_pos hi, if_pos hi, Nat.testBit_and, Nat.testBit_mod_two_pow]
    simp [hi]
  · rw [if_neg hi, if_neg hi, Nat.testBit_and, Nat.testBit_div_two_pow]
    congr 2
    omega

/-- A mask of 26 bits sees no more of a number. -/
theorem and_mask (x : Nat) {mask : Nat} (h : mask < 2 ^ 26) : x &&& mask = x % 2 ^ 26 &&& mask := by
  have hsplit := and_split x mask 0 h
  rw [Nat.mul_zero, Nat.zero_add, Nat.and_zero, Nat.mul_zero, Nat.zero_add] at hsplit
  exact hsplit

/-- **The clamped key** in limbs. -/
theorem value_new {key : List UInt8} (hkey : key.length = 32) :
    Reduced (Poly1305State.new key).r ∧
      value (Poly1305State.new key).r = clamp (LittleEndian.ofBytes (key.take 16)) := by
  have hlt := LittleEndian.ofBytes_lt (key.take 16)
  have hlength : (key.take 16).length = 16 := by
    rw [List.length_take]
    omega
  rw [hlength] at hlt
  have hlow := LittleEndian.ofBytes_take key 16
  set n := LittleEndian.ofBytes key with hn
  set m := LittleEndian.ofBytes (key.take 16) with hm
  have w0 := toNat_wordAt key 0
  have w1 := toNat_wordAt key 3
  have w2 := toNat_wordAt key 6
  have w3 := toNat_wordAt key 9
  have w4 := toNat_wordAt key 12
  rw [← hn] at w0 w1 w2 w3 w4
  have l0 : (Poly1305State.new key).r[0].toNat = (m % 2 ^ 26) &&& 0x3ffffff := by
    show (wordAt key 0 &&& limbMask).toNat = _
    rw [UInt32.toNat_and, w0]
    show _ &&& 0x3ffffff = _
    rw [and_mask _ (by decide)]
    congr 1
    omega
  have l1 : (Poly1305State.new key).r[1].toNat = (m / 2 ^ 26 % 2 ^ 26) &&& 0x3ffff03 := by
    have hshift : (wordAt key 3 >>> 2).toNat = (wordAt key 3).toNat / 2 ^ 2 :=
      toNat_shiftRight _ (by decide : 2 < 32)
    show ((wordAt key 3 >>> 2) &&& 0x3ffff03).toNat = _
    rw [UInt32.toNat_and, hshift, w1]
    show _ &&& 0x3ffff03 = _
    rw [and_mask _ (by decide)]
    congr 1
    omega
  have l2 : (Poly1305State.new key).r[2].toNat = (m / 2 ^ 52 % 2 ^ 26) &&& 0x3ffc0ff := by
    have hshift : (wordAt key 6 >>> 4).toNat = (wordAt key 6).toNat / 2 ^ 4 :=
      toNat_shiftRight _ (by decide : 4 < 32)
    show ((wordAt key 6 >>> 4) &&& 0x3ffc0ff).toNat = _
    rw [UInt32.toNat_and, hshift, w2]
    show _ &&& 0x3ffc0ff = _
    rw [and_mask _ (by decide)]
    congr 1
    omega
  have l3 : (Poly1305State.new key).r[3].toNat = (m / 2 ^ 78 % 2 ^ 26) &&& 0x3f03fff := by
    have hshift : (wordAt key 9 >>> 6).toNat = (wordAt key 9).toNat / 2 ^ 6 :=
      toNat_shiftRight _ (by decide : 6 < 32)
    show ((wordAt key 9 >>> 6) &&& 0x3f03fff).toNat = _
    rw [UInt32.toNat_and, hshift, w3]
    show _ &&& 0x3f03fff = _
    rw [and_mask _ (by decide)]
    congr 1
    omega
  have l4 : (Poly1305State.new key).r[4].toNat = (m / 2 ^ 104) &&& 0x00fffff := by
    have hshift : (wordAt key 12 >>> 8).toNat = (wordAt key 12).toNat / 2 ^ 8 :=
      toNat_shiftRight _ (by decide : 8 < 32)
    show ((wordAt key 12 >>> 8) &&& 0x00fffff).toNat = _
    rw [UInt32.toNat_and, hshift, w4]
    show _ &&& 0x00fffff = _
    congr 1
    omega
  have hbound : ∀ x mask : Nat, mask < 2 ^ 26 → x &&& mask < 2 ^ 26 :=
    fun x mask h => Nat.lt_of_le_of_lt Nat.and_le_right h
  refine ⟨⟨?_, ?_, ?_, ?_, ?_⟩, ?_⟩
  · rw [l0]
    exact hbound _ _ (by decide)
  · rw [l1]
    exact hbound _ _ (by decide)
  · rw [l2]
    exact hbound _ _ (by decide)
  · rw [l3]
    exact hbound _ _ (by decide)
  · rw [l4]
    exact hbound _ _ (by decide)
  · have hmask : 0x0ffffffc0ffffffc0ffffffc0fffffff =
        2 ^ 26 * (2 ^ 26 * (2 ^ 26 * (2 ^ 26 * 0x00fffff + 0x3f03fff) + 0x3ffc0ff) + 0x3ffff03) +
          0x3ffffff := by decide
    unfold value clamp
    rw [l0, l1, l2, l3, l4, hmask, and_split _ _ _ (by decide : 0x3ffffff < 2 ^ 26),
      and_split _ _ _ (by decide : 0x3ffff03 < 2 ^ 26),
      and_split _ _ _ (by decide : 0x3ffc0ff < 2 ^ 26),
      and_split _ _ _ (by decide : 0x3f03fff < 2 ^ 26)]
    have p2 : (2 : Nat) ^ 26 * 2 ^ 26 = 2 ^ 52 := by decide
    have p3 : (2 : Nat) ^ 52 * 2 ^ 26 = 2 ^ 78 := by decide
    have p4 : (2 : Nat) ^ 78 * 2 ^ 26 = 2 ^ 104 := by decide
    simp only [Nat.div_div_eq_div_mul, p2, p3, p4]
    ring

/-! ## The last steps -/

/-- **Carried around**: all limbs are reduced. -/
theorem carryAround_spec {h : Vector UInt32 5} (hh : Settled h) :
    Reduced (carryAround h) ∧ ∃ k, value h = value (carryAround h) + k * prime := by
  obtain ⟨hh0, hh1, hh2, hh3, hh4⟩ := hh
  have hshift : ∀ x : UInt32, (x >>> 26).toNat = x.toNat / 2 ^ 26 :=
    fun x => toNat_shiftRight x (by decide : 26 < 32)
  set h2 := h[2] + (h[1] >>> 26) with hd2
  set h3 := h[3] + (h2 >>> 26) with hd3
  set h4 := h[4] + (h3 >>> 26) with hd4
  have e2 : h2.toNat = h[2].toNat + h[1].toNat / 2 ^ 26 := by
    rw [hd2, toNat_add (by rw [hshift]; omega), hshift]
  have e3 : h3.toNat = h[3].toNat + h2.toNat / 2 ^ 26 := by
    rw [hd3, toNat_add (by rw [hshift]; omega), hshift]
  have e4 : h4.toNat = h[4].toNat + h3.toNat / 2 ^ 26 := by
    rw [hd4, toNat_add (by rw [hshift]; omega), hshift]
  have hfive : ((h4 >>> 26) * 5).toNat = h4.toNat / 2 ^ 26 * 5 := by
    rw [UInt32.toNat_mul, hshift]
    exact Nat.mod_eq_of_lt (by show h4.toNat / 2 ^ 26 * 5 < 2 ^ 32; omega)
  set h0 := h[0] + (h4 >>> 26) * 5 with hd0
  have e0 : h0.toNat = h[0].toNat + h4.toNat / 2 ^ 26 * 5 := by
    rw [hd0, toNat_add (by rw [hfive]; omega), hfive]
  have o0 : (carryAround h)[0].toNat = h0.toNat % 2 ^ 26 := toNat_and_limbMask h0
  have o1 : (carryAround h)[1].toNat = h[1].toNat % 2 ^ 26 + h0.toNat / 2 ^ 26 := by
    show ((h[1] &&& limbMask) + (h0 >>> 26)).toNat = _
    rw [toNat_add (by rw [toNat_and_limbMask, hshift]; omega), toNat_and_limbMask, hshift]
  have o2 : (carryAround h)[2].toNat = h2.toNat % 2 ^ 26 := toNat_and_limbMask h2
  have o3 : (carryAround h)[3].toNat = h3.toNat % 2 ^ 26 := toNat_and_limbMask h3
  have o4 : (carryAround h)[4].toNat = h4.toNat % 2 ^ 26 := toNat_and_limbMask h4
  refine ⟨⟨by omega, by omega, by omega, by omega, by omega⟩, h4.toNat / 2 ^ 26, ?_⟩
  unfold value prime
  rw [o0, o1, o2, o3, o4]
  omega

/-- The mask chooses between two words. -/
theorem select_none (x y : UInt32) : (x &&& ~~~(0 : UInt32)) ||| (y &&& 0) = x := by
  rw [UInt32.and_zero, UInt32.or_zero, UInt32.not_zero, UInt32.and_neg_one]

theorem select_all (x y : UInt32) :
    (x &&& ~~~(0 - 1 : UInt32)) ||| (y &&& (0 - 1)) = y := by
  have hall : (0 - 1 : UInt32) = -1 := rfl
  rw [hall, UInt32.not_neg_one, UInt32.and_zero, UInt32.zero_or, UInt32.and_neg_one]

/-- **Reduced once**, a number of 130 bits is below the prime. -/
theorem reduceOnce_spec {h : Vector UInt32 5} (hh : Reduced h) :
    Reduced (reduceOnce h) ∧ value (reduceOnce h) = value h % prime := by
  obtain ⟨hh0, hh1, hh2, hh3, hh4⟩ := hh
  have hshift : ∀ x : UInt32, (x >>> 26).toNat = x.toNat / 2 ^ 26 :=
    fun x => toNat_shiftRight x (by decide : 26 < 32)
  set g0 := h[0] + 5 with hd0
  set g1 := h[1] + (g0 >>> 26) with hd1
  set g2 := h[2] + (g1 >>> 26) with hd2
  set g3 := h[3] + (g2 >>> 26) with hd3
  set top := h[4] + (g3 >>> 26) with hdtop
  set g4 := top - 0x4000000 with hd4
  have e0 : g0.toNat = h[0].toNat + 5 := toNat_add (by show h[0].toNat + 5 < 2 ^ 32; omega)
  have e1 : g1.toNat = h[1].toNat + g0.toNat / 2 ^ 26 := by
    rw [hd1, toNat_add (by rw [hshift]; omega), hshift]
  have e2 : g2.toNat = h[2].toNat + g1.toNat / 2 ^ 26 := by
    rw [hd2, toNat_add (by rw [hshift]; omega), hshift]
  have e3 : g3.toNat = h[3].toNat + g2.toNat / 2 ^ 26 := by
    rw [hd3, toNat_add (by rw [hshift]; omega), hshift]
  have etop : top.toNat = h[4].toNat + g3.toNat / 2 ^ 26 := by
    rw [hdtop, toNat_add (by rw [hshift]; omega), hshift]
  have hg4 : g4.toNat = (2 ^ 32 - 2 ^ 26 + top.toNat) % 2 ^ 32 := UInt32.toNat_sub top 0x4000000
  have hsign : (g4 >>> 31).toNat = g4.toNat / 2 ^ 31 := toNat_shiftRight g4 (by decide : 31 < 32)
  have hl : ∀ g, (g &&& limbMask).toNat = g.toNat % 2 ^ 26 := toNat_and_limbMask
  by_cases hbig : 2 ^ 26 ≤ top.toNat
  · -- not below the prime
    have hmask : (g4 >>> 31) = 0 := UInt32.toNat_inj.mp (by rw [hsign]; show _ = 0; omega)
    have o0 : (reduceOnce h)[0].toNat = g0.toNat % 2 ^ 26 := by
      show ((h[0] &&& ~~~((g4 >>> 31) - 1)) ||| (g0 &&& limbMask &&& ((g4 >>> 31) - 1))).toNat = _
      rw [hmask, select_all, hl]
    have o1 : (reduceOnce h)[1].toNat = g1.toNat % 2 ^ 26 := by
      show ((h[1] &&& ~~~((g4 >>> 31) - 1)) ||| (g1 &&& limbMask &&& ((g4 >>> 31) - 1))).toNat = _
      rw [hmask, select_all, hl]
    have o2 : (reduceOnce h)[2].toNat = g2.toNat % 2 ^ 26 := by
      show ((h[2] &&& ~~~((g4 >>> 31) - 1)) ||| (g2 &&& limbMask &&& ((g4 >>> 31) - 1))).toNat = _
      rw [hmask, select_all, hl]
    have o3 : (reduceOnce h)[3].toNat = g3.toNat % 2 ^ 26 := by
      show ((h[3] &&& ~~~((g4 >>> 31) - 1)) ||| (g3 &&& limbMask &&& ((g4 >>> 31) - 1))).toNat = _
      rw [hmask, select_all, hl]
    have o4 : (reduceOnce h)[4].toNat = g4.toNat := by
      show ((h[4] &&& ~~~((g4 >>> 31) - 1)) ||| (g4 &&& ((g4 >>> 31) - 1))).toNat = _
      rw [hmask, select_all]
    refine ⟨⟨by omega, by omega, by omega, by omega, by omega⟩, ?_⟩
    have hvalue : value h = value (reduceOnce h) + prime := by
      unfold value prime
      rw [o0, o1, o2, o3, o4]
      omega
    have hlt : value (reduceOnce h) < prime := by
      unfold value prime at *
      omega
    rw [hvalue, Nat.add_mod_right, Nat.mod_eq_of_lt hlt]
  · have hone : (g4 >>> 31) = 1 := UInt32.toNat_inj.mp (by rw [hsign]; show _ = 1; omega)
    have hmask : (1 : UInt32) - 1 = 0 := rfl
    have hsame : reduceOnce h = h := by
      apply Vector.ext
      intro i hi
      obtain rfl | rfl | rfl | rfl | rfl : i = 0 ∨ i = 1 ∨ i = 2 ∨ i = 3 ∨ i = 4 := by omega
      · show (h[0] &&& ~~~((g4 >>> 31) - 1)) ||| (g0 &&& limbMask &&& ((g4 >>> 31) - 1)) = _
        rw [hone, hmask, select_none]
      · show (h[1] &&& ~~~((g4 >>> 31) - 1)) ||| (g1 &&& limbMask &&& ((g4 >>> 31) - 1)) = _
        rw [hone, hmask, select_none]
      · show (h[2] &&& ~~~((g4 >>> 31) - 1)) ||| (g2 &&& limbMask &&& ((g4 >>> 31) - 1)) = _
        rw [hone, hmask, select_none]
      · show (h[3] &&& ~~~((g4 >>> 31) - 1)) ||| (g3 &&& limbMask &&& ((g4 >>> 31) - 1)) = _
        rw [hone, hmask, select_none]
      · show (h[4] &&& ~~~((g4 >>> 31) - 1)) ||| (g4 &&& ((g4 >>> 31) - 1)) = _
        rw [hone, hmask, select_none]
    have hlt : value h < prime := by
      unfold value prime
      omega
    rw [hsame, Nat.mod_eq_of_lt hlt]
    exact ⟨⟨hh0, hh1, hh2, hh3, hh4⟩, rfl⟩

/-- Bits that do not overlap are added. -/
theorem toNat_join {low high : UInt32} {k n : Nat} (hlow : low.toNat < 2 ^ k)
    (hhigh : high.toNat = n * 2 ^ k) : (low ||| high).toNat = low.toNat + high.toNat := by
  rw [UInt32.toNat_or, hhigh, Nat.mul_comm n, Nat.or_comm, ← Nat.two_pow_add_eq_or_of_lt hlow,
    Nat.add_comm]

/-- **The words are the lowest 128 bits.** -/
theorem pack_spec {h : Vector UInt32 5} (hh : Reduced h) :
    value32 (pack h) = value h % 2 ^ 128 := by
  obtain ⟨hh0, hh1, hh2, hh3, hh4⟩ := hh
  have hleft26 : (h[1] <<< 26).toNat = h[1].toNat * 2 ^ 26 % 2 ^ 32 :=
    toNat_shiftLeft h[1] (by decide : 26 < 32)
  have hleft20 : (h[2] <<< 20).toNat = h[2].toNat * 2 ^ 20 % 2 ^ 32 :=
    toNat_shiftLeft h[2] (by decide : 20 < 32)
  have hleft14 : (h[3] <<< 14).toNat = h[3].toNat * 2 ^ 14 % 2 ^ 32 :=
    toNat_shiftLeft h[3] (by decide : 14 < 32)
  have hleft8 : (h[4] <<< 8).toNat = h[4].toNat * 2 ^ 8 % 2 ^ 32 :=
    toNat_shiftLeft h[4] (by decide : 8 < 32)
  have hright6 : (h[1] >>> 6).toNat = h[1].toNat / 2 ^ 6 :=
    toNat_shiftRight h[1] (by decide : 6 < 32)
  have hright12 : (h[2] >>> 12).toNat = h[2].toNat / 2 ^ 12 :=
    toNat_shiftRight h[2] (by decide : 12 < 32)
  have hright18 : (h[3] >>> 18).toNat = h[3].toNat / 2 ^ 18 :=
    toNat_shiftRight h[3] (by decide : 18 < 32)
  have w0 : (pack h)[0].toNat = h[0].toNat + h[1].toNat * 2 ^ 26 % 2 ^ 32 := by
    have hjoin := @toNat_join h[0] (h[1] <<< 26) 26 (h[1].toNat % 2 ^ 6) (by omega) (by omega)
    exact hjoin.trans (by rw [hleft26])
  have w1 : (pack h)[1].toNat = h[1].toNat / 2 ^ 6 + h[2].toNat * 2 ^ 20 % 2 ^ 32 := by
    have hjoin := @toNat_join (h[1] >>> 6) (h[2] <<< 20) 20 (h[2].toNat % 2 ^ 12) (by omega)
      (by omega)
    exact hjoin.trans (by rw [hleft20, hright6])
  have w2 : (pack h)[2].toNat = h[2].toNat / 2 ^ 12 + h[3].toNat * 2 ^ 14 % 2 ^ 32 := by
    have hjoin := @toNat_join (h[2] >>> 12) (h[3] <<< 14) 14 (h[3].toNat % 2 ^ 18) (by omega)
      (by omega)
    exact hjoin.trans (by rw [hleft14, hright12])
  have w3 : (pack h)[3].toNat = h[3].toNat / 2 ^ 18 + h[4].toNat * 2 ^ 8 % 2 ^ 32 := by
    have hjoin := @toNat_join (h[3] >>> 18) (h[4] <<< 8) 8 (h[4].toNat % 2 ^ 24) (by omega)
      (by omega)
    exact hjoin.trans (by rw [hleft8, hright18])
  unfold value32 value
  rw [w0, w1, w2, w3]
  omega

/-- **The sum of words**, with the second half of the key. -/
theorem finalize_bytes (state : Poly1305State) :
    state.finalize.toList =
      LittleEndian.toBytes 16
        (value32 (pack (reduceOnce (carryAround state.h))) + value32 state.pad) := by
  set w := pack (reduceOnce (carryAround state.h)) with hw
  have hshift : ∀ x : UInt64, (x >>> 32).toNat = x.toNat / 2 ^ 32 :=
    fun x => toNat_shiftRight64 x (by decide : 32 < 64)
  have hword : ∀ i (hi : i < 4), w[i].toNat < 2 ^ 32 ∧ state.pad[i].toNat < 2 ^ 32 :=
    fun i hi => ⟨w[i].toNat_lt, state.pad[i].toNat_lt⟩
  obtain ⟨hw0, hp0⟩ := hword 0 (by decide)
  obtain ⟨hw1, hp1⟩ := hword 1 (by decide)
  obtain ⟨hw2, hp2⟩ := hword 2 (by decide)
  obtain ⟨hw3, hp3⟩ := hword 3 (by decide)
  set f0 := w[0].toUInt64 + state.pad[0].toUInt64 with hf0
  set f1 := w[1].toUInt64 + state.pad[1].toUInt64 + (f0 >>> 32) with hf1
  set f2 := w[2].toUInt64 + state.pad[2].toUInt64 + (f1 >>> 32) with hf2
  set f3 := w[3].toUInt64 + state.pad[3].toUInt64 + (f2 >>> 32) with hf3
  have hsum : ∀ i (hi : i < 4), (w[i].toUInt64 + state.pad[i].toUInt64).toNat =
      w[i].toNat + state.pad[i].toNat := by
    intro i hi
    obtain ⟨hwi, hpi⟩ := hword i hi
    rw [toNat_add64 (by simp only [UInt32.toNat_toUInt64]; omega), UInt32.toNat_toUInt64,
      UInt32.toNat_toUInt64]
  have e0 : f0.toNat = w[0].toNat + state.pad[0].toNat := hsum 0 (by decide)
  have e1 : f1.toNat = w[1].toNat + state.pad[1].toNat + f0.toNat / 2 ^ 32 := by
    rw [hf1, toNat_add64 (by rw [hsum 1 (by decide), hshift]; omega), hsum 1 (by decide), hshift]
  have e2 : f2.toNat = w[2].toNat + state.pad[2].toNat + f1.toNat / 2 ^ 32 := by
    rw [hf2, toNat_add64 (by rw [hsum 2 (by decide), hshift]; omega), hsum 2 (by decide), hshift]
  have e3 : f3.toNat = w[3].toNat + state.pad[3].toNat + f2.toNat / 2 ^ 32 := by
    rw [hf3, toNat_add64 (by rw [hsum 3 (by decide), hshift]; omega), hsum 3 (by decide), hshift]
  have hbytes : ∀ f : UInt64, (wordBytes f).toList = LittleEndian.toBytes 4 f.toNat := by
    intro f
    show LittleEndian.toBytes 4 f.toUInt32.toNat = _
    rw [UInt64.toNat_toUInt32]
    exact LittleEndian.toBytes_mod 4 f.toNat
  have htotal : state.finalize.toList = (wordBytes f0).toList ++ (wordBytes f1).toList ++
      (wordBytes f2).toList ++ (wordBytes f3).toList := by
    show (wordBytes f0 ++ wordBytes f1 ++ wordBytes f2 ++ wordBytes f3).toList = _
    rw [Vector.toList_append, Vector.toList_append, Vector.toList_append]
  set sum := value32 w + value32 state.pad with hsumdef
  have hf : sum = w[0].toNat + 2 ^ 32 * w[1].toNat + 2 ^ 64 * w[2].toNat + 2 ^ 96 * w[3].toNat +
      (state.pad[0].toNat + 2 ^ 32 * state.pad[1].toNat + 2 ^ 64 * state.pad[2].toNat +
        2 ^ 96 * state.pad[3].toNat) := rfl
  -- word after word, four bytes each
  have c0 : f0.toNat % 256 ^ 4 = sum % 256 ^ 4 := by omega
  have c1 : f1.toNat % 256 ^ 4 = sum / 256 ^ 4 % 256 ^ 4 := by omega
  have c2 : f2.toNat % 256 ^ 4 = sum / 256 ^ 4 / 256 ^ 4 % 256 ^ 4 := by omega
  have c3 : f3.toNat % 256 ^ 4 = sum / 256 ^ 4 / 256 ^ 4 / 256 ^ 4 % 256 ^ 4 := by omega
  have hcut : ∀ a b : Nat, a % 256 ^ 4 = b % 256 ^ 4 →
      LittleEndian.toBytes 4 a = LittleEndian.toBytes 4 b := by
    intro a b h
    rw [← LittleEndian.toBytes_mod 4 a, h, LittleEndian.toBytes_mod]
  rw [htotal, hbytes, hbytes, hbytes, hbytes, hcut _ _ c0, hcut _ _ c1, hcut _ _ c2, hcut _ _ c3,
    LittleEndian.toBytes_add 4 12, LittleEndian.toBytes_add 4 8, LittleEndian.toBytes_add 4 4,
    List.append_assoc, List.append_assoc]

/-! ## A run of blocks -/

/-- The state of Poly1305 with the halves `r` and `s` of the key and the sum `acc` so far. -/
structure Stands (state : Poly1305State) (r s acc : Nat) : Prop where
  reduced : Reduced state.r
  multiplier : value state.r = r
  settled : Settled state.h
  sum : value state.h % prime = acc % prime
  pad : value32 state.pad = s

theorem stands_new {key : List UInt8} (hkey : key.length = 32) :
    Stands (.new key) (clamp (LittleEndian.ofBytes (key.take 16)))
      (LittleEndian.ofBytes ((key.drop 16).take 16)) 0 := by
  obtain ⟨hreduced, hvalue⟩ := value_new hkey
  refine ⟨hreduced, hvalue, ⟨?_, ?_, ?_, ?_, ?_⟩, rfl, ?_⟩
  · show 0 < 2 ^ 26
    decide
  · show 0 < 2 ^ 26 + 2 ^ 7
    decide
  · show 0 < 2 ^ 26
    decide
  · show 0 < 2 ^ 26
    decide
  · show 0 < 2 ^ 26
    decide
  · have hlt := LittleEndian.ofBytes_lt key
    rw [hkey] at hlt
    have hpad : ∀ i (hi : i < 4), (Poly1305State.new key).pad[i] = wordAt key (16 + 4 * i) := by
      intro i hi
      match i with
      | 0 => rfl
      | 1 => rfl
      | 2 => rfl
      | 3 => rfl
    unfold value32
    rw [hpad 0 (by decide), hpad 1 (by decide), hpad 2 (by decide), hpad 3 (by decide),
      toNat_wordAt, toNat_wordAt, toNat_wordAt, toNat_wordAt, LittleEndian.ofBytes_take,
      LittleEndian.ofBytes_drop]
    omega

/-- **A block is absorbed** as the polynomial says. -/
theorem stands_computeBlock {state : Poly1305State} {r s acc : Nat} (h : Stands state r s acc)
    {block : List UInt8} (hblock : block.length = 16) (isPartial : Bool) :
    Stands (state.computeBlock block isPartial) r s
      ((acc + (LittleEndian.ofBytes block + if isPartial then 0 else 2 ^ 128)) * r % prime) := by
  obtain ⟨hadded, hvalue⟩ := addBlock_spec h.settled hblock isPartial
  obtain ⟨hproducts, k, hmultiply⟩ := multiply_spec hadded h.reduced
  obtain ⟨hsettled, k', hcarry⟩ := carry_spec hproducts
  refine ⟨h.reduced, h.multiplier, hsettled, ?_, h.pad⟩
  have hsum : value (addBlock state.h block isPartial) % prime =
      (acc + (LittleEndian.ofBytes block + if isPartial then 0 else 2 ^ 128)) % prime := by
    rw [hvalue, Nat.add_assoc, Nat.add_mod, h.sum, ← Nat.add_mod]
  show value (carry (multiply (addBlock state.h block isPartial) state.r)) % prime = _
  have hproduct : value (addBlock state.h block isPartial) * value state.r =
      value (carry (multiply (addBlock state.h block isPartial) state.r)) + (k' + k) * prime := by
    rw [hmultiply, hcarry, Nat.add_mul, Nat.add_assoc]
  rw [Nat.mod_mod, Nat.mul_mod, ← hsum, ← Nat.mul_mod, ← h.multiplier, hproduct,
    Nat.add_mul_mod_self_right]

theorem stands_blocks {state : Poly1305State} {r s acc : Nat} (h : Stands state r s acc)
    {blocks : List (List UInt8)} (hblocks : ∀ b ∈ blocks, b.length = 16) :
    Stands (blocks.foldl fullBlock state) r s (blocks.foldl (accumulate r) acc) := by
  induction blocks generalizing state acc with
  | nil => exact h
  | cons b blocks ih =>
    have hb := hblocks b List.mem_cons_self
    have hnumber : LittleEndian.ofBytes b + (if false = true then 0 else 2 ^ 128) =
        blockNumber b := by
      unfold blockNumber
      rw [LittleEndian.ofBytes_append, hb]
      rfl
    have hstep := stands_computeBlock h hb false
    rw [hnumber] at hstep
    exact ih hstep fun c hc => hblocks c (List.mem_cons_of_mem b hc)

theorem foldl_accumulate_lt (r : Nat) {acc : Nat} (h : acc < prime) (blocks : List (List UInt8)) :
    blocks.foldl (accumulate r) acc < prime := by
  induction blocks generalizing acc with
  | nil => exact h
  | cons b blocks ih => exact ih (Nat.mod_lt _ (by decide))

/-- **The tag of a sum.** -/
theorem finalize_stands {state : Poly1305State} {r s acc : Nat} (h : Stands state r s acc)
    (hacc : acc < prime) : state.finalize.toList = LittleEndian.toBytes 16 (acc + s) := by
  obtain ⟨hcarried, k, haround⟩ := carryAround_spec h.settled
  obtain ⟨hreduced, honce⟩ := reduceOnce_spec hcarried
  have hsum : value (reduceOnce (carryAround state.h)) = acc := by
    rw [honce, ← Nat.add_mul_mod_self_right _ k, ← haround, h.sum, Nat.mod_eq_of_lt hacc]
  have hmod : (acc % 2 ^ 128 + s) % 256 ^ 16 = (acc + s) % 256 ^ 16 := by
    have hpow : (256 : Nat) ^ 16 = 2 ^ 128 := by decide
    rw [hpow, Nat.mod_add_mod]
  rw [finalize_bytes, pack_spec hreduced, hsum, h.pad, ← LittleEndian.toBytes_mod, hmod,
    LittleEndian.toBytes_mod]

/-- **Poly1305.** -/
theorem finalize_update {key : List UInt8} (hkey : key.length = 32) (message : List UInt8) :
    ((FastPoly1305.new key).update message).finalize.toList = poly1305 key message := by
  set r := clamp (LittleEndian.ofBytes (key.take 16)) with hr
  set s := LittleEndian.ofBytes ((key.drop 16).take 16) with hs
  have hupdate := update_eq (partial_new key) message
  have hfresh : ((FastPoly1305.new key).state, (FastPoly1305.new key).leftover) =
      (Poly1305State.new key, ([] : List UInt8)) := rfl
  rw [hfresh, pushAll_chunksExact] at hupdate
  obtain ⟨hstate, hleft⟩ := Prod.mk.inj hupdate
  set whole := (chunksExact 16 message).1 with hwhole
  set rest := (chunksExact 16 message).2 with hrest
  have hblocks := @stands_blocks _ _ _ _ (stands_new hkey) whole
    fun b hb => length_of_mem_chunksExact hb
  rw [← hr, ← hs, ← hstate] at hblocks
  have hlt := foldl_accumulate_lt r (by decide : 0 < prime) whole
  have hshort : rest.length < 16 := by
    rw [hrest]
    unfold chunksExact
    rw [List.length_drop]
    omega
  unfold poly1305 FastPoly1305.finalize
  dsimp only
  rw [← hr, ← hs, chunks_eq_exact (by decide), ← hwhole, ← hrest, hleft, List.foldl_append]
  by_cases hempty : rest = []
  · rw [hempty]
    exact finalize_stands hblocks hlt
  · have hpos : rest.length ≠ 0 := fun h => hempty (List.length_eq_zero_iff.mp h)
    have hpadded : (rest ++ [1] ++ List.replicate (16 - rest.length - 1) 0).length = 16 := by
      rw [List.length_append, List.length_append, List.length_singleton, List.length_replicate]
      omega
    have hnumber : LittleEndian.ofBytes (rest ++ [1] ++ List.replicate (16 - rest.length - 1) 0) +
        (if true = true then 0 else 2 ^ 128) = blockNumber rest := by
      rw [LittleEndian.ofBytes_append, LittleEndian.ofBytes_replicate_zero]
      rfl
    have hstep := stands_computeBlock hblocks hpadded true
    rw [hnumber] at hstep
    rw [if_neg hempty]
    simp only [ne_eq, hpos, not_false_eq_true, if_true]
    exact finalize_stands hstep (Nat.mod_lt _ (by decide))

end Catplay.Analysis.Hap
