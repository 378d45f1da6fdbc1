import Catplay.Analysis.Hap.Tag
import Mathlib.Algebra.BigOperators.Fin

/-!
# No overflow in Poly1305

With every sum, product and carry checked, the backend in Rust computes what it computes without
checks, from any key and over any pieces. The tag is the polynomial of the message, written out
as a sum, with the second half of the key added.
-/

set_option autoImplicit false

namespace Catplay.Analysis.Hap

open Catplay.Model.Hap Catplay.Library Catplay.Library.ChaChaPoly
open Catplay.Model.Hap.Poly1305State

/-! ## Checked operations that succeed -/

theorem checkedAdd_ok {a b : UInt32} (h : a.toNat + b.toNat < 2 ^ 32) :
    checkedAdd a b = some (a + b) := if_pos h

theorem checkedMul_five {a : UInt32} (h : a.toNat * 5 < 2 ^ 32) :
    checkedMul a 5 = some (a * 5) := if_pos h

theorem checkedAdd64_ok {a b : UInt64} (h : a.toNat + b.toNat < 2 ^ 64) :
    checkedAdd64 a b = some (a + b) := if_pos h

theorem checkedMul64_ok {a b : UInt64} (ha : a.toNat < 2 ^ 28) (hb : b.toNat < 2 ^ 29) :
    checkedMul64 a b = some (a * b) ∧ (a * b).toNat < 2 ^ 57 := by
  have hlt : a.toNat * b.toNat < 2 ^ 28 * 2 ^ 29 := Nat.mul_lt_mul'' ha hb
  refine ⟨if_pos (by omega), ?_⟩
  rw [UInt64.toNat_mul, Nat.mod_eq_of_lt (by omega)]
  omega

/-- The carry of a number of 58 bits. -/
theorem checkedCarry_ok {d : UInt64} (h : d.toNat < 2 ^ 58) :
    checkedCarry (d >>> 26) = some (d >>> 26).toUInt32 := by
  have hshift : (d >>> 26).toNat = d.toNat / 2 ^ 26 := toNat_shiftRight64 d (by decide : 26 < 64)
  apply if_pos
  rw [hshift]
  omega

/-! ## A block -/

variable {h : Vector UInt32 5} {block : List UInt8} {state : Poly1305State} {poly : FastPoly1305}

theorem addBlockChecked_ok (hh : Settled h) (block : List UInt8) (isPartial : Bool) :
    addBlockChecked h block isPartial = some (addBlock h block isPartial) := by
  obtain ⟨hh0, hh1, hh2, hh3, hh4⟩ := hh
  have hmask (x : UInt32) : (x &&& limbMask).toNat < 2 ^ 26 := by
    rw [toNat_and_limbMask]
    exact Nat.mod_lt _ (by decide)
  have hlast : ((wordAt block 12 >>> 8) ||| (if isPartial then 0 else 0x1000000)).toNat <
      2 ^ 25 := by
    have hshift : (wordAt block 12 >>> 8).toNat = (wordAt block 12).toNat / 2 ^ 8 :=
      toNat_shiftRight _ (by decide : 8 < 32)
    have hword := (wordAt block 12).toNat_lt
    rw [UInt32.toNat_or]
    apply Nat.or_lt_two_pow
    · omega
    · cases isPartial <;> decide
  have m0 := hmask (wordAt block 0)
  have m1 := hmask (wordAt block 3 >>> 2)
  have m2 := hmask (wordAt block 6 >>> 4)
  have m3 := hmask (wordAt block 9 >>> 6)
  have a0 := @checkedAdd_ok h[0] (wordAt block 0 &&& limbMask) (by omega)
  have a1 := @checkedAdd_ok h[1] ((wordAt block 3 >>> 2) &&& limbMask) (by omega)
  have a2 := @checkedAdd_ok h[2] ((wordAt block 6 >>> 4) &&& limbMask) (by omega)
  have a3 := @checkedAdd_ok h[3] ((wordAt block 9 >>> 6) &&& limbMask) (by omega)
  have a4 := @checkedAdd_ok h[4] ((wordAt block 12 >>> 8) ||| (if isPartial then 0 else 0x1000000))
    (by omega)
  unfold addBlockChecked
  simp only [a0, a1, a2, a3, a4, Option.bind_eq_bind, Option.bind_some]
  rfl

theorem dotChecked_ok {a0 a1 a2 a3 a4 b0 b1 b2 b3 b4 : UInt64}
    (ha : a0.toNat < 2 ^ 28 ∧ a1.toNat < 2 ^ 28 ∧ a2.toNat < 2 ^ 28 ∧ a3.toNat < 2 ^ 28 ∧
      a4.toNat < 2 ^ 28)
    (hb : b0.toNat < 2 ^ 29 ∧ b1.toNat < 2 ^ 29 ∧ b2.toNat < 2 ^ 29 ∧ b3.toNat < 2 ^ 29 ∧
      b4.toNat < 2 ^ 29) :
    dotChecked a0 a1 a2 a3 a4 b0 b1 b2 b3 b4 =
      some (a0 * b0 + a1 * b1 + a2 * b2 + a3 * b3 + a4 * b4) := by
  obtain ⟨ha0, ha1, ha2, ha3, ha4⟩ := ha
  obtain ⟨hb0, hb1, hb2, hb3, hb4⟩ := hb
  obtain ⟨p0, lt0⟩ := checkedMul64_ok ha0 hb0
  obtain ⟨p1, lt1⟩ := checkedMul64_ok ha1 hb1
  obtain ⟨p2, lt2⟩ := checkedMul64_ok ha2 hb2
  obtain ⟨p3, lt3⟩ := checkedMul64_ok ha3 hb3
  obtain ⟨p4, lt4⟩ := checkedMul64_ok ha4 hb4
  have e1 : (a0 * b0 + a1 * b1).toNat = (a0 * b0).toNat + (a1 * b1).toNat :=
    toNat_add64 (by omega)
  have e2 : (a0 * b0 + a1 * b1 + a2 * b2).toNat = (a0 * b0 + a1 * b1).toNat + (a2 * b2).toNat :=
    toNat_add64 (by omega)
  have e3 : (a0 * b0 + a1 * b1 + a2 * b2 + a3 * b3).toNat =
      (a0 * b0 + a1 * b1 + a2 * b2).toNat + (a3 * b3).toNat := toNat_add64 (by omega)
  have s1 := @checkedAdd64_ok (a0 * b0) (a1 * b1) (by omega)
  have s2 := @checkedAdd64_ok (a0 * b0 + a1 * b1) (a2 * b2) (by omega)
  have s3 := @checkedAdd64_ok (a0 * b0 + a1 * b1 + a2 * b2) (a3 * b3) (by omega)
  have s4 := @checkedAdd64_ok (a0 * b0 + a1 * b1 + a2 * b2 + a3 * b3) (a4 * b4) (by omega)
  unfold dotChecked
  simp only [p0, p1, p2, p3, p4, s1, s2, s3, s4, Option.bind_eq_bind, Option.bind_some]

theorem multiplyChecked_ok {r : Vector UInt32 5} (hh : Added h) (hr : Reduced r) :
    multiplyChecked h r = some (multiply h r) := by
  obtain ⟨hr0, hr1, hr2, hr3, hr4⟩ := hr
  have hadded : ∀ {x : UInt32}, x.toNat < 2 ^ 27 + 2 ^ 7 → x.toUInt64.toNat < 2 ^ 28 := by
    intro x hx
    rw [UInt32.toNat_toUInt64]
    omega
  have hha := And.intro (hadded hh.limb0) <| And.intro (hadded hh.limb1) <|
    And.intro (hadded hh.limb2) <| And.intro (hadded hh.limb3) (hadded hh.limb4)
  have s1 := @checkedMul_five r[1] (by omega)
  have s2 := @checkedMul_five r[2] (by omega)
  have s3 := @checkedMul_five r[3] (by omega)
  have s4 := @checkedMul_five r[4] (by omega)
  have l0 := toNat_limb_lt hr0
  have l1 := toNat_limb_lt hr1
  have l2 := toNat_limb_lt hr2
  have l3 := toNat_limb_lt hr3
  have l4 := toNat_limb_lt hr4
  have f1 := toNat_five_lt hr1
  have f2 := toNat_five_lt hr2
  have f3 := toNat_five_lt hr3
  have f4 := toNat_five_lt hr4
  have d0 := dotChecked_ok hha ⟨l0, f4, f3, f2, f1⟩
  have d1 := dotChecked_ok hha ⟨l1, l0, f4, f3, f2⟩
  have d2 := dotChecked_ok hha ⟨l2, l1, l0, f4, f3⟩
  have d3 := dotChecked_ok hha ⟨l3, l2, l1, l0, f4⟩
  have d4 := dotChecked_ok hha ⟨l4, l3, l2, l1, l0⟩
  unfold multiplyChecked
  simp only [s1, s2, s3, s4, d0, d1, d2, d3, d4, Option.bind_eq_bind, Option.bind_some]
  rfl

theorem carryChecked_ok {d : Vector UInt64 5} (h : Products d) :
    carryChecked d = some (carry d) := by
  obtain ⟨h0, h1, h2, h3, h4⟩ := h
  set d1 := d[1] + (d[0] >>> 26).toUInt32.toUInt64 with hd1
  set d2 := d[2] + (d1 >>> 26).toUInt32.toUInt64 with hd2
  set d3 := d[3] + (d2 >>> 26).toUInt32.toUInt64 with hd3
  set d4 := d[4] + (d3 >>> 26).toUInt32.toUInt64 with hd4
  have e1 : d1.toNat = d[1].toNat + d[0].toNat / 2 ^ 26 := toNat_carried (by omega) (by omega)
  have e2 : d2.toNat = d[2].toNat + d1.toNat / 2 ^ 26 := toNat_carried (by omega) (by omega)
  have e3 : d3.toNat = d[3].toNat + d2.toNat / 2 ^ 26 := toNat_carried (by omega) (by omega)
  have e4 : d4.toNat = d[4].toNat + d3.toNat / 2 ^ 26 := toNat_carried (by omega) (by omega)
  have hcarry {x : UInt64} (hx : x.toNat < 2 ^ 58) :
      (x >>> 26).toUInt32.toUInt64.toNat = x.toNat / 2 ^ 26 := by
    rw [UInt32.toNat_toUInt64, toNat_high hx]
  have c0 := @checkedCarry_ok d[0] (by omega)
  have c1 := @checkedCarry_ok d1 (by omega)
  have c2 := @checkedCarry_ok d2 (by omega)
  have c3 := @checkedCarry_ok d3 (by omega)
  have c4 := @checkedCarry_ok d4 (by omega)
  have a1 := @checkedAdd64_ok d[1] (d[0] >>> 26).toUInt32.toUInt64
    (by rw [hcarry (by omega)]; omega)
  have a2 := @checkedAdd64_ok d[2] (d1 >>> 26).toUInt32.toUInt64
    (by rw [hcarry (by omega)]; omega)
  have a3 := @checkedAdd64_ok d[3] (d2 >>> 26).toUInt32.toUInt64
    (by rw [hcarry (by omega)]; omega)
  have a4 := @checkedAdd64_ok d[4] (d3 >>> 26).toUInt32.toUInt64
    (by rw [hcarry (by omega)]; omega)
  have hc : (d4 >>> 26).toUInt32.toNat = d4.toNat / 2 ^ 26 := toNat_high (by omega)
  have hfive : ((d4 >>> 26).toUInt32 * 5).toNat = d4.toNat / 2 ^ 26 * 5 := by
    rw [UInt32.toNat_mul, hc]
    exact Nat.mod_eq_of_lt (by show d4.toNat / 2 ^ 26 * 5 < 2 ^ 32; omega)
  have m4 := @checkedMul_five (d4 >>> 26).toUInt32 (by rw [hc]; omega)
  have b0 := @checkedAdd_ok (d[0].toUInt32 &&& limbMask) ((d4 >>> 26).toUInt32 * 5)
    (by rw [toNat_low, hfive]; omega)
  have hshift (x : UInt32) : (x >>> 26).toNat = x.toNat / 2 ^ 26 :=
    toNat_shiftRight x (by decide : 26 < 32)
  have b1 := @checkedAdd_ok (d1.toUInt32 &&& limbMask)
    (((d[0].toUInt32 &&& limbMask) + (d4 >>> 26).toUInt32 * 5) >>> 26)
    (by
      have hlt := ((d[0].toUInt32 &&& limbMask) + (d4 >>> 26).toUInt32 * 5).toNat_lt
      rw [toNat_low, hshift]
      omega)
  rw [← hd1] at a1
  rw [← hd2] at a2
  rw [← hd3] at a3
  rw [← hd4] at a4
  unfold carryChecked
  simp only [c0, c1, c2, c3, c4, a1, a2, a3, a4, m4, b0, b1, Option.bind_eq_bind,
    Option.bind_some]
  rfl

/-- **A block is absorbed without overflow.** -/
theorem computeBlockChecked_ok {r s acc : Nat} (h : Stands state r s acc)
    (hblock : block.length = 16) (isPartial : Bool) :
    state.computeBlockChecked block isPartial = some (state.computeBlock block isPartial) := by
  have hadded := (addBlock_spec h.settled hblock isPartial).1
  have hproducts := (multiply_spec hadded h.reduced).1
  unfold computeBlockChecked
  rw [addBlockChecked_ok h.settled, Option.bind_eq_bind, Option.bind_some,
    multiplyChecked_ok hadded h.reduced, Option.bind_eq_bind, Option.bind_some,
    carryChecked_ok hproducts]
  rfl

/-! ## The last steps -/

theorem carryAroundChecked_ok (hh : Settled h) :
    carryAroundChecked h = some (carryAround h) := by
  obtain ⟨hh0, hh1, hh2, hh3, hh4⟩ := hh
  have hshift (x : UInt32) : (x >>> 26).toNat = x.toNat / 2 ^ 26 :=
    toNat_shiftRight x (by decide : 26 < 32)
  set h2 := h[2] + (h[1] >>> 26) with hd2
  set h3 := h[3] + (h2 >>> 26) with hd3
  set h4 := h[4] + (h3 >>> 26) with hd4
  have a2 := @checkedAdd_ok h[2] (h[1] >>> 26) (by rw [hshift]; omega)
  have a3 := @checkedAdd_ok h[3] (h2 >>> 26) (by rw [hshift]; have := h2.toNat_lt; omega)
  have a4 := @checkedAdd_ok h[4] (h3 >>> 26) (by rw [hshift]; have := h3.toNat_lt; omega)
  have hfive : ((h4 >>> 26) * 5).toNat = h4.toNat / 2 ^ 26 * 5 := by
    have hlt := h4.toNat_lt
    rw [UInt32.toNat_mul, hshift]
    exact Nat.mod_eq_of_lt (by show h4.toNat / 2 ^ 26 * 5 < 2 ^ 32; omega)
  have m4 := @checkedMul_five (h4 >>> 26) (by rw [hshift]; have := h4.toNat_lt; omega)
  have a0 := @checkedAdd_ok h[0] ((h4 >>> 26) * 5)
    (by rw [hfive]; have := h4.toNat_lt; omega)
  have a1 := @checkedAdd_ok (h[1] &&& limbMask) ((h[0] + (h4 >>> 26) * 5) >>> 26)
    (by
      have hlt := (h[0] + (h4 >>> 26) * 5).toNat_lt
      rw [toNat_and_limbMask, hshift]
      omega)
  rw [← hd2] at a2
  rw [← hd3] at a3
  rw [← hd4] at a4
  unfold carryAroundChecked
  simp only [a2, a3, a4, m4, a0, a1, Option.bind_eq_bind, Option.bind_some]
  rfl

theorem reduceOnceChecked_ok (hh : Reduced h) :
    reduceOnceChecked h = some (reduceOnce h) := by
  obtain ⟨hh0, hh1, hh2, hh3, hh4⟩ := hh
  have hcarry {x y : UInt32} (hx : x.toNat < 2 ^ 26) : x.toNat + (y >>> 26).toNat < 2 ^ 32 := by
    have hshift : (y >>> 26).toNat = y.toNat / 2 ^ 26 := toNat_shiftRight y (by decide : 26 < 32)
    have hlt := y.toNat_lt
    rw [hshift]
    omega
  have a0 := @checkedAdd_ok h[0] 5 (by show h[0].toNat + 5 < 2 ^ 32; omega)
  have a1 := @checkedAdd_ok h[1] ((h[0] + 5) >>> 26) (hcarry hh1)
  have a2 := @checkedAdd_ok h[2] ((h[1] + ((h[0] + 5) >>> 26)) >>> 26) (hcarry hh2)
  have a3 := @checkedAdd_ok h[3] ((h[2] + ((h[1] + ((h[0] + 5) >>> 26)) >>> 26)) >>> 26)
    (hcarry hh3)
  have a4 := @checkedAdd_ok h[4]
    ((h[3] + ((h[2] + ((h[1] + ((h[0] + 5) >>> 26)) >>> 26)) >>> 26)) >>> 26) (hcarry hh4)
  unfold reduceOnceChecked
  simp only [a0, a1, a2, a3, a4, Option.bind_eq_bind, Option.bind_some]
  rfl

theorem addWordsChecked_ok (h pad : Vector UInt32 4) :
    addWordsChecked h pad = some (addWords h pad) := by
  have hword (x : UInt32) : x.toUInt64.toNat < 2 ^ 32 := by
    rw [UInt32.toNat_toUInt64]
    exact x.toNat_lt
  have hpair (x y : UInt32) : checkedAdd64 x.toUInt64 y.toUInt64 =
      some (x.toUInt64 + y.toUInt64) := by
    have hx := hword x
    have hy := hword y
    exact checkedAdd64_ok (by omega)
  have hcarry (x y : UInt32) (f : UInt64) :
      checkedAdd64 (x.toUInt64 + y.toUInt64) (f >>> 32) =
        some (x.toUInt64 + y.toUInt64 + (f >>> 32)) := by
    have hx := hword x
    have hy := hword y
    have hshift : (f >>> 32).toNat = f.toNat / 2 ^ 32 := toNat_shiftRight64 f (by decide : 32 < 64)
    have hf := f.toNat_lt
    apply checkedAdd64_ok
    rw [toNat_add64 (by omega), hshift]
    omega
  unfold addWordsChecked
  simp only [hpair, hcarry, Option.bind_eq_bind, Option.bind_some]
  rfl

/-- **The tag is computed without overflow.** -/
theorem finalizeChecked_ok {r s acc : Nat} (h : Stands state r s acc) :
    state.finalizeChecked = some state.finalize := by
  have hreduced := (carryAround_spec h.settled).1
  unfold Poly1305State.finalizeChecked
  rw [carryAroundChecked_ok h.settled, Option.bind_eq_bind, Option.bind_some,
    reduceOnceChecked_ok hreduced, Option.bind_eq_bind, Option.bind_some, addWordsChecked_ok]
  rfl

/-! ## A run of calls -/

/-- The state is one of a run of blocks. -/
def Sound (state : Poly1305State) : Prop := ∃ r s acc, Stands state r s acc

theorem sound_fullBlock (h : Sound state)
    (hblock : block.length = 16) : Sound (fullBlock state block) := by
  obtain ⟨r, s, acc, hstands⟩ := h
  exact ⟨r, s, _, stands_computeBlock hstands hblock false⟩

theorem computeBlockChecked_sound (h : Sound state) (hblock : block.length = 16) :
    state.computeBlockChecked block false = some (fullBlock state block) := by
  obtain ⟨r, s, acc, hstands⟩ := h
  exact computeBlockChecked_ok hstands hblock false

theorem blocksChecked_ok (h : Sound state) {blocks : List (List UInt8)}
    (hblocks : ∀ b ∈ blocks, b.length = 16) :
    blocks.foldlM (·.computeBlockChecked · false) state = some (blocks.foldl fullBlock state) ∧
      Sound (blocks.foldl fullBlock state) := by
  induction blocks generalizing state with
  | nil => exact ⟨rfl, h⟩
  | cons b blocks ih =>
    have hb := hblocks b List.mem_cons_self
    obtain ⟨hrun, hsound⟩ := ih (sound_fullBlock h hb) fun c hc =>
      hblocks c (List.mem_cons_of_mem b hc)
    refine ⟨?_, hsound⟩
    rw [List.foldlM_cons, computeBlockChecked_sound h hb, Option.bind_eq_bind, Option.bind_some]
    exact hrun

/-- **An update overflows nowhere.** -/
theorem updateChecked_ok (h : Sound poly.state) (data : List UInt8) :
    poly.updateChecked data = some (poly.update data) ∧ Sound (poly.update data).state := by
  have hrest (state : Poly1305State) (hstate : Sound state) (input : List UInt8) :=
    blocksChecked_ok hstate fun b (hb : b ∈ (chunksExact 16 input).1) =>
      length_of_mem_chunksExact hb
  unfold FastPoly1305.updateChecked FastPoly1305.update
  by_cases hempty : data.isEmpty = true
  · rw [if_pos hempty, if_pos hempty]
    exact ⟨rfl, h⟩
  · rw [if_neg hempty, if_neg hempty]
    by_cases hleft : poly.leftover.length ≠ 0
    · rw [if_pos hleft, if_pos hleft]
      dsimp only
      by_cases hfull : (poly.leftover ++
          data.take (min (16 - poly.leftover.length) data.length)).length = 16
      · rw [if_pos hfull, if_pos hfull, computeBlockChecked_sound h hfull]
        obtain ⟨hrun, hsound⟩ := hrest _ (sound_fullBlock h hfull)
          (data.drop (min (16 - poly.leftover.length) data.length))
        simp only [Option.bind_eq_bind, Option.bind_some, Option.pure_def, hrun]
        split
        · exact ⟨rfl, hsound⟩
        · exact ⟨rfl, hsound⟩
      · rw [if_neg hfull, if_neg hfull]
        obtain ⟨hrun, hsound⟩ := hrest _ h
          (data.drop (min (16 - poly.leftover.length) data.length))
        simp only [Option.bind_eq_bind, Option.bind_some, Option.pure_def, hrun]
        split
        · exact ⟨rfl, hsound⟩
        · exact ⟨rfl, hsound⟩
    · rw [if_neg hleft, if_neg hleft]
      obtain ⟨hrun, hsound⟩ := hrest _ h data
      simp only [Option.bind_eq_bind, Option.bind_some, Option.pure_def, hrun]
      split
      · exact ⟨rfl, hsound⟩
      · exact ⟨rfl, hsound⟩

/-- **Any sequence of updates** is one update with all the data. -/
theorem updatesChecked_ok (hkept : Partial poly) (h : Sound poly.state)
    (pieces : List (List UInt8)) :
    pieces.foldlM FastPoly1305.updateChecked poly = some (poly.update pieces.flatten) ∧
      Partial (poly.update pieces.flatten) ∧ Sound (poly.update pieces.flatten).state := by
  induction pieces generalizing poly with
  | nil => exact ⟨rfl, hkept, h⟩
  | cons piece pieces ih =>
    obtain ⟨hrun, hsound⟩ := updateChecked_ok h piece
    rw [List.flatten_cons, update_append hkept, List.foldlM_cons, hrun, Option.bind_eq_bind,
      Option.bind_some]
    exact ih (partial_update hkept piece) hsound

theorem padBlock_length {left : List UInt8} (h : left.length < 16) :
    (left ++ [1] ++ List.replicate (16 - left.length - 1) 0).length = 16 := by
  rw [List.length_append, List.length_append, List.length_singleton, List.length_replicate]
  omega

theorem finalize_checked (hkept : Partial poly) (h : Sound poly.state) :
    poly.finalizeChecked = some poly.finalize := by
  obtain ⟨r, s, acc, hstands⟩ := h
  unfold FastPoly1305.finalizeChecked FastPoly1305.finalize
  by_cases hleft : poly.leftover.length ≠ 0
  · have hblock := padBlock_length hkept
    rw [if_pos hleft, if_pos hleft, computeBlockChecked_ok hstands hblock, Option.bind_eq_bind,
      Option.bind_some]
    exact finalizeChecked_ok (stands_computeBlock hstands hblock true)
  · rw [if_neg hleft, if_neg hleft]
    exact finalizeChecked_ok hstands

/-! ## The polynomial -/

/-- The blocks as the coefficients of a polynomial, each with a one behind its bytes. -/
def polynomial (r : Nat) (blocks : List (List UInt8)) : Nat :=
  ∑ i : Fin blocks.length,
    (LittleEndian.ofBytes blocks[i] + 2 ^ (8 * blocks[i].length)) * r ^ (blocks.length - i)

theorem blockNumber_eq (bytes : List UInt8) :
    blockNumber bytes = LittleEndian.ofBytes bytes + 2 ^ (8 * bytes.length) := by
  unfold blockNumber
  rw [LittleEndian.ofBytes_append, Nat.pow_mul]
  show _ + 256 ^ bytes.length * 1 = _
  rw [Nat.mul_one]

theorem polynomial_cons (r : Nat) (block : List UInt8) (blocks : List (List UInt8)) :
    polynomial r (block :: blocks) =
      blockNumber block * r ^ (blocks.length + 1) + polynomial r blocks := by
  unfold polynomial
  refine (Fin.sum_univ_succ _).trans ?_
  rw [blockNumber_eq]
  congr 1
  apply Finset.sum_congr rfl
  intro i _
  have hexponent : (block :: blocks).length - i.succ.val = blocks.length - i.val := by
    rw [Fin.val_succ, List.length_cons, Nat.add_sub_add_right]
  exact congrArg (fun k => (LittleEndian.ofBytes blocks[i] + 2 ^ (8 * blocks[i].length)) * r ^ k)
    hexponent

/-- **The rule of Horner.** -/
theorem foldl_accumulate_mod (r acc : Nat) (blocks : List (List UInt8)) :
    blocks.foldl (accumulate r) acc % prime =
      (acc * r ^ blocks.length + polynomial r blocks) % prime := by
  induction blocks generalizing acc with
  | nil => simp [polynomial]
  | cons block blocks ih =>
    have hexpand : (acc + blockNumber block) * r * r ^ blocks.length =
        acc * r ^ (blocks.length + 1) + blockNumber block * r ^ (blocks.length + 1) := by
      ring
    rw [List.foldl_cons, ih, accumulate, polynomial_cons, List.length_cons, ← Nat.add_assoc,
      ← hexpand, Nat.add_mod, Nat.mod_mul_mod, ← Nat.add_mod]

/-- **The backend in Rust is Poly1305, and overflows nowhere**: over any pieces, with every sum,
product and carry checked, it returns the tag that the code without checks returns, and the tag is
the polynomial of the message modulo the prime with the second half of the key added, in 128
bits. -/
theorem poly1305_exact (key : Key) (pieces : List (List UInt8)) :
    ∃ tag : Tag, FastPoly1305.authenticateChecked key pieces = some tag ∧
      (pieces.foldl FastPoly1305.update (.new key.toList)).finalize = tag ∧
      LittleEndian.ofBytes tag.toList =
        (polynomial (clamp (LittleEndian.ofBytes (key.toList.take 16)))
            (chunks 16 pieces.flatten) % (2 ^ 130 - 5) +
          LittleEndian.ofBytes (key.toList.drop 16)) % 2 ^ 128 := by
  have hlength : key.toList.length = 32 := Vector.length_toList
  have hkept := partial_new key.toList
  have hsound : Sound (FastPoly1305.new key.toList).state := ⟨_, _, _, stands_new hlength⟩
  obtain ⟨hrun, hkeptAll, hsoundAll⟩ := updatesChecked_ok hkept hsound pieces
  refine ⟨((FastPoly1305.new key.toList).update pieces.flatten).finalize, ?_, ?_, ?_⟩
  · unfold FastPoly1305.authenticateChecked
    rw [hrun, Option.bind_eq_bind, Option.bind_some]
    exact finalize_checked hkeptAll hsoundAll
  · congr 1
    clear hrun hkeptAll hsoundAll hsound
    generalize FastPoly1305.new key.toList = poly at hkept
    induction pieces generalizing poly with
    | nil => rfl
    | cons piece pieces ih =>
      rw [List.foldl_cons, List.flatten_cons, update_append hkept]
      exact ih _ (partial_update hkept piece)
  · have hacc := foldl_accumulate_lt (clamp (LittleEndian.ofBytes (key.toList.take 16)))
      (by decide : 0 < prime) (chunks 16 pieces.flatten)
    have hmod := foldl_accumulate_mod (clamp (LittleEndian.ofBytes (key.toList.take 16))) 0
      (chunks 16 pieces.flatten)
    rw [Nat.mod_eq_of_lt hacc, Nat.zero_mul, Nat.zero_add] at hmod
    have hpad : (key.toList.drop 16).take 16 = key.toList.drop 16 := by
      apply List.take_of_length_le
      rw [List.length_drop, hlength]
    have hpow : (256 : Nat) ^ 16 = 2 ^ 128 := by decide
    rw [finalize_update hlength]
    unfold poly1305
    dsimp only
    rw [hpad, hmod, ← LittleEndian.toBytes_mod,
      LittleEndian.ofBytes_toBytes (Nat.mod_lt _ (by decide)), hpow]
    rfl

end Catplay.Analysis.Hap
