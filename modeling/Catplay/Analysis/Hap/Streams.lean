import Catplay.Model.Hap.Cipher

/-!
# The payload keystream and the tag, piece by piece

Where a piece of a payload begins does not matter for the keystream on it
(`applyKeystreamAtOffset_eq`), and Poly1305 absorbs data in any pieces (`update_append`).
-/

set_option autoImplicit false

namespace Catplay.Analysis.Hap

open Catplay.Model.Hap Catplay.Library Catplay.Library.Keystream Catplay.Library.Blocks

/-! ## The keystream -/

theorem length_chachaBlock (key : Key) (nonce : NonceBytes) (counter : UInt32) :
    (chachaBlock key nonce counter).length = 64 := by
  unfold chachaBlock
  simp only [List.length_flatMap, LittleEndian.length_toBytes, List.map_const', Vector.length_toList]
  rfl

/-- The keystream of a payload: the blocks from the second one on. -/
def payloadByte (key : Key) (nonce : NonceBytes) (position : Nat) : UInt8 :=
  (chachaBlock key nonce (1 + .ofNat (position / 64)))[position % 64]?.getD 0

variable {key : Key} {nonce : NonceBytes}

theorem chachaBlock_eq (block : Nat) :
    chachaBlock key nonce (1 + .ofNat block) = window (payloadByte key nonce) (64 * block) 64 := by
  have hlength := length_chachaBlock key nonce (1 + .ofNat block)
  apply List.ext_getElem
  · rw [hlength, length_window]
  · intro i hi _
    rw [hlength] at hi
    have hdiv : (64 * block + i) / 64 = block := by omega
    have hmod : (64 * block + i) % 64 = i := by omega
    simp only [window, payloadByte, List.getElem_map, List.getElem_range, hdiv, hmod]
    rw [List.getElem?_eq_getElem (by omega), Option.getD_some]

/-- Only as much of the key is used as there are data. -/
theorem xorBytes_take (data stream : List UInt8) :
    xorBytes data (stream.take data.length) = xorBytes data stream := by
  unfold xorBytes
  induction data generalizing stream with
  | nil => rfl
  | cons byte data ih =>
    cases stream with
    | nil => rfl
    | cons first stream =>
      rw [List.length_cons, List.take_succ_cons, List.zipWith_cons_cons, List.zipWith_cons_cons, ih]

theorem xorBytes_window_le (ks : Nat → UInt8) (start : Nat) {data : List UInt8} {len : Nat}
    (h : data.length ≤ len) :
    xorBytes data (window ks start len) = xorBytes data (window ks start data.length) := by
  rw [← xorBytes_take, take_window ks start h]

/-- **The keystream undoes itself.** -/
theorem xorBytes_xorBytes {data stream : List UInt8} (h : data.length = stream.length) :
    xorBytes (xorBytes data stream) stream = data := by
  unfold xorBytes
  induction data generalizing stream with
  | nil => rfl
  | cons byte data ih =>
    cases stream with
    | nil => cases h
    | cons first stream =>
      rw [List.zipWith_cons_cons, List.zipWith_cons_cons, ih (Nat.succ.inj h), UInt8.xor_assoc,
        UInt8.xor_self, UInt8.xor_zero]

/-- **A stretch of the ciphertext** is the stretch of the data under its own stretch of the
keystream. -/
theorem xorBytes_slice (ks : Nat → UInt8) (base : Nat) {data : List UInt8} {start end_ : Nat}
    (hend : end_ ≤ data.length) :
    ((xorBytes data (window ks base data.length)).take end_).drop start =
      xorBytes ((data.take end_).drop start)
        (window ks (base + start) ((data.take end_).drop start).length) := by
  have hlength : ((data.take end_).drop start).length = end_ - start := by
    rw [List.length_drop, List.length_take, Nat.min_eq_left hend]
  rw [hlength]
  unfold xorBytes
  rw [List.take_zipWith, List.drop_zipWith, take_window ks base hend]
  by_cases hstart : start ≤ end_
  · rw [drop_window ks base hstart]
  · have hnone : end_ - start = 0 := by omega
    have hnothing : (data.take end_).drop start = [] := by
      rw [← List.length_eq_zero_iff, hlength, hnone]
    rw [hnothing]
    rfl

/-- Data that are cut where a block ends, or not at all. -/
theorem xorBytes_window_take_drop (ks : Nat → UInt8) (start len : Nat) (data : List UInt8) :
    xorBytes (data.take len) (window ks start len) ++
        xorBytes (data.drop len) (window ks (start + len) (data.drop len).length) =
      xorBytes data (window ks start data.length) := by
  by_cases h : len ≤ data.length
  · have hfront : (data.take len).length = len := by rw [List.length_take, Nat.min_eq_left h]
    conv_rhs => rw [← List.take_append_drop len data]
    rw [xorBytes_window_append, hfront]
  · have hle : data.length ≤ len := Nat.le_of_not_le h
    rw [List.take_of_length_le hle, List.drop_of_length_le hle, xorBytes_window_le ks start hle]
    exact List.append_nil _

theorem applyBlocks_eq {fuel : Nat} {data : List UInt8} (hfuel : data.length ≤ fuel)
    (block : Nat) :
    applyBlocks key nonce (1 + .ofNat block) (chunksAux 64 fuel data) =
      xorBytes data (window (payloadByte key nonce) (64 * block) data.length) := by
  induction fuel generalizing data block with
  | zero =>
    rw [List.length_eq_zero_iff.mp (Nat.le_zero.mp hfuel)]
    rfl
  | succ fuel ih =>
    unfold chunksAux
    cases data with
    | nil => rfl
    | cons byte data =>
      set whole := byte :: data with hwhole
      have hdrop : (whole.drop 64).length ≤ fuel := by
        rw [List.length_drop]
        omega
      have hnext : (1 + .ofNat block + 1 : UInt32) = 1 + .ofNat (block + 1) := by
        rw [UInt32.ofNat_add, UInt32.add_assoc]
        rfl
      show List.zipWith (· ^^^ ·) (whole.take 64) (chachaBlock key nonce (1 + .ofNat block)) ++
        applyBlocks key nonce (1 + .ofNat block + 1) (chunksAux 64 fuel (whole.drop 64)) = _
      rw [hnext, ih hdrop, chachaBlock_eq, Nat.mul_succ]
      exact xorBytes_window_take_drop (payloadByte key nonce) (64 * block) 64 whole

theorem applyKeystream_eq (block : Nat) (data : List UInt8) :
    applyKeystream key nonce (1 + .ofNat block) data =
      xorBytes data (window (payloadByte key nonce) (64 * block) data.length) :=
  applyBlocks_eq (Nat.le_refl _) block

/-- **From any position on**, the bytes are those of the keystream there. -/
theorem applyKeystreamAtOffset_eq (key : Key) (nonce : NonceBytes) (offset : Nat)
    (data : List UInt8) :
    applyKeystreamAtOffset key nonce offset data =
      xorBytes data (window (payloadByte key nonce) offset data.length) := by
  unfold applyKeystreamAtOffset
  cases data with
  | nil => rfl
  | cons byte data =>
    set whole := byte :: data with hwhole
    have hne : ¬whole.isEmpty = true := by
      rw [hwhole]
      exact Bool.false_ne_true
    simp only [hne, Bool.false_eq_true, if_false]
    by_cases hin : offset % 64 = 0
    · have hblock : 64 * (offset / 64) = offset := by omega
      rw [if_neg (by omega), applyKeystream_eq, hblock]
    · have hnext : (1 + .ofNat (offset / 64) + 1 : UInt32) = 1 + .ofNat (offset / 64 + 1) := by
        rw [UInt32.ofNat_add, UInt32.add_assoc]
        rfl
      rw [if_pos hin, hnext, applyKeystream_eq, chachaBlock_eq,
        drop_window _ _ (Nat.le_of_lt (Nat.mod_lt offset (by decide))), Nat.div_add_mod]
      by_cases hshort : whole.length ≤ 64 - offset % 64
      · rw [Nat.min_eq_right hshort, List.take_length, List.drop_length]
        have hfit := xorBytes_window_le (payloadByte key nonce) offset hshort
        exact (List.append_nil _).trans hfit
      · have hend : 64 * (offset / 64 + 1) = offset + (64 - offset % 64) := by omega
        rw [Nat.min_eq_left (by omega), hend]
        exact xorBytes_window_take_drop (payloadByte key nonce) offset (64 - offset % 64) whole

/-! ## The tag -/

/-- Poly1305 over full blocks. -/
def fullBlock (state : Poly1305State) (block : List UInt8) : Poly1305State :=
  state.computeBlock block false

/-- Less than a block is kept. -/
def Partial (poly : FastPoly1305) : Prop := poly.leftover.length < 16

theorem partial_new (polyKey : List UInt8) : Partial (.new polyKey) := by
  show 0 < 16
  decide

/-- Whole blocks, and the rest is kept. -/
theorem pushAll_chunksExact (state : Poly1305State) (input : List UInt8) :
    pushAll fullBlock 16 (state, []) input =
      ((chunksExact 16 input).1.foldl fullBlock state, (chunksExact 16 input).2) := by
  have hrest : (chunksExact 16 input).2.length < 16 := by
    unfold chunksExact
    rw [List.length_drop]
    omega
  conv_lhs => rw [← flatten_chunksExact (by decide : 0 < 16) input]
  rw [pushAll_append, pushAll_blocks (by decide) fun b hb => length_of_mem_chunksExact hb,
    pushAll_short (by rwa [List.length_nil, Nat.zero_add]), List.nil_append]

/-- The second half of `update`. -/
def absorbRest (poly : FastPoly1305) (input : List UInt8) : FastPoly1305 :=
  let state := (chunksExact 16 input).1.foldl fullBlock poly.state
  if (chunksExact 16 input).2.isEmpty then ⟨state, poly.leftover⟩
  else ⟨state, (chunksExact 16 input).2⟩

theorem absorbRest_of_empty {poly : FastPoly1305} (h : poly.leftover = []) (input : List UInt8) :
    ((absorbRest poly input).state, (absorbRest poly input).leftover) =
      pushAll fullBlock 16 (poly.state, poly.leftover) input := by
  rw [h, pushAll_chunksExact]
  unfold absorbRest
  cases hrest : (chunksExact 16 input).2 with
  | nil =>
    show (_, poly.leftover) = _
    rw [h]
    rfl
  | cons b rest => rfl

theorem absorbRest_nil (poly : FastPoly1305) : absorbRest poly [] = poly := rfl

/-- **`update` takes the bytes one by one.** -/
theorem update_eq {poly : FastPoly1305} (h : Partial poly) (data : List UInt8) :
    ((poly.update data).state, (poly.update data).leftover) =
      pushAll fullBlock 16 (poly.state, poly.leftover) data := by
  unfold FastPoly1305.update
  cases data with
  | nil => rfl
  | cons byte data =>
    set whole := byte :: data with hwhole
    have hne : ¬whole.isEmpty = true := by
      rw [hwhole]
      exact Bool.false_ne_true
    rw [if_neg hne]
    unfold Partial at h
    set want := min (16 - poly.leftover.length) whole.length with hwant
    by_cases hleft : poly.leftover.length = 0
    · -- nothing was kept
      have hempty := List.length_eq_zero_iff.mp hleft
      simp only [hleft, ne_eq, not_true_eq_false, if_false]
      exact absorbRest_of_empty hempty whole
    · simp only [ne_eq, hleft, not_false_eq_true, if_true]
      have htake : (whole.take want).length = want := by
        rw [List.length_take]
        omega
      by_cases hfull : (poly.leftover ++ whole.take want).length = 16
      · -- the block is filled, and the rest begins a new one
        rw [if_pos hfull]
        rw [List.length_append, htake] at hfull
        have hsome : whole.take want ≠ [] := by
          rw [← List.length_pos_iff, htake]
          omega
        conv_rhs =>
          rw [← List.take_append_drop want whole, pushAll_append,
            pushAll_fill hsome (by rw [htake, hfull])]
        exact @absorbRest_of_empty ⟨fullBlock poly.state (poly.leftover ++ whole.take want), []⟩ rfl _
      · -- the block is not filled
        rw [if_neg hfull]
        rw [List.length_append, htake] at hfull
        have hall : want = whole.length := by omega
        rw [hall, List.take_length, List.drop_length, pushAll_short (by omega)]
        have hnothing := absorbRest_nil ⟨poly.state, poly.leftover ++ whole⟩
        exact congrArg (fun left : FastPoly1305 => (left.state, left.leftover)) hnothing

theorem partial_update {poly : FastPoly1305} (h : Partial poly) (data : List UInt8) :
    Partial (poly.update data) := by
  have hlt : (pushAll fullBlock 16 (poly.state, poly.leftover) data).2.length < 16 :=
    length_pushAll_lt (by decide) h data
  rwa [← update_eq h data] at hlt

/-- **In any pieces.** -/
theorem update_append {poly : FastPoly1305} (h : Partial poly) (front back : List UInt8) :
    poly.update (front ++ back) = (poly.update front).update back := by
  have hfront := update_eq h front
  have hpartial := partial_update h front
  have hboth := update_eq h (front ++ back)
  rw [pushAll_append, ← hfront, ← update_eq hpartial back] at hboth
  cases hleft : poly.update (front ++ back) with
  | mk state left =>
    cases hright : (poly.update front).update back with
    | mk state' left' =>
      rw [hleft, hright] at hboth
      obtain ⟨rfl, rfl⟩ := Prod.mk.inj hboth
      rfl

theorem partial_updatePadding {poly : FastPoly1305} (h : Partial poly) (len : Nat) :
    Partial (updatePadding poly len) := by
  show Partial (if len % 16 ≠ 0 then _ else poly)
  split
  · exact partial_update h _
  · exact h

end Catplay.Analysis.Hap
