import Catplay.Analysis.Link.Packets
import Catplay.Model.Link.Checksum

/-!
# The two checksums

The fast checksum is the plain one (`checksum_fast_eq`). A block has at most 1024 bytes, so at most
64 chunks: an accumulator stays below 64 times the 1020 of four bytes, and no sum of `u32`
overflows.
-/

set_option autoImplicit false

namespace Catplay.Analysis.Link

open Catplay.Library Catplay.Library.Checked Catplay.Model.Link

namespace OverflowChecks

open Model.Link.OverflowChecks

theorem add_ok {x y : UInt32} (h : x.toNat + y.toNat < 2 ^ 32) : add x y = .ok (x + y) := if_pos h

theorem toNat_add {x y : UInt32} (h : x.toNat + y.toNat < 2 ^ 32) :
    (x + y).toNat = x.toNat + y.toNat := by
  rw [UInt32.toNat_add]
  exact Nat.mod_eq_of_lt h

theorem index_ok {chunk : Bytes} {i : Nat} (h : i < chunk.length) :
    (index chunk i : Exec Empty UInt8) = .ok (chunk.getD i 0) := by
  unfold index
  rw [List.getD_eq_getElem?_getD, List.getElem?_eq_getElem h]
  rfl

/-- Four bytes of a chunk. -/
def fourBytes (chunk : Bytes) (i : Nat) : UInt32 :=
  (chunk.getD i 0).toUInt32 + (chunk.getD (i + 4) 0).toUInt32 + (chunk.getD (i + 8) 0).toUInt32 +
    (chunk.getD (i + 12) 0).toUInt32

/-- **Four bytes** are at most 1020. -/
theorem addend_ok {chunk : Bytes} (hchunk : chunk.length = 16) {i : Nat} (hi : i < 4) :
    addend chunk i = .ok (fourBytes chunk i) ∧ (fourBytes chunk i).toNat ≤ 1020 := by
  have hbyte : ∀ b : UInt8, b.toUInt32.toNat ≤ 255 := fun b =>
    Nat.le_of_lt_succ (by rw [UInt8.toNat_toUInt32]; exact b.toNat_lt)
  have h0 := hbyte (chunk.getD i 0)
  have h1 := hbyte (chunk.getD (i + 4) 0)
  have h2 := hbyte (chunk.getD (i + 8) 0)
  have h3 := hbyte (chunk.getD (i + 12) 0)
  have e1 := toNat_add (Nat.lt_of_le_of_lt (Nat.add_le_add h0 h1) (by decide))
  have l1 := e1 ▸ Nat.add_le_add h0 h1
  have e2 := toNat_add (Nat.lt_of_le_of_lt (Nat.add_le_add l1 h2) (by decide))
  have l2 := e2 ▸ Nat.add_le_add l1 h2
  have e3 := toNat_add (Nat.lt_of_le_of_lt (Nat.add_le_add l2 h3) (by decide))
  have l3 := e3 ▸ Nat.add_le_add l2 h3
  refine ⟨?_, l3⟩
  unfold addend
  rw [index_ok (by omega), ok_bind, index_ok (by omega), ok_bind,
    add_ok (Nat.lt_of_le_of_lt (Nat.add_le_add h0 h1) (by decide)), ok_bind, index_ok (by omega),
    ok_bind, add_ok (Nat.lt_of_le_of_lt (Nat.add_le_add l1 h2) (by decide)), ok_bind,
    index_ok (by omega), ok_bind]
  exact add_ok (Nat.lt_of_le_of_lt (Nat.add_le_add l2 h3) (by decide))

/-- No accumulator is above `bound`. -/
structure AtMost (bound : Nat) (acc : UInt32 × UInt32 × UInt32 × UInt32) : Prop where
  acc0 : acc.1.toNat ≤ bound
  acc1 : acc.2.1.toNat ≤ bound
  acc2 : acc.2.2.1.toNat ≤ bound
  acc3 : acc.2.2.2.toNat ≤ bound

/-- **One chunk.** -/
theorem addChunk_ok {chunk : Bytes} (hchunk : chunk.length = 16) {bound : Nat}
    {acc : UInt32 × UInt32 × UInt32 × UInt32} (h : AtMost bound acc)
    (hbound : bound + 1020 < 2 ^ 32) :
    OverflowChecks.addChunk acc chunk = .ok (Model.Link.addChunk acc chunk) ∧
      AtMost (bound + 1020) (Model.Link.addChunk acc chunk) := by
  obtain ⟨a0, l0⟩ := addend_ok hchunk (by decide : 0 < 4)
  obtain ⟨a1, l1⟩ := addend_ok hchunk (by decide : 1 < 4)
  obtain ⟨a2, l2⟩ := addend_ok hchunk (by decide : 2 < 4)
  obtain ⟨a3, l3⟩ := addend_ok hchunk (by decide : 3 < 4)
  have m0 := Nat.add_le_add h.acc0 l0
  have m1 := Nat.add_le_add h.acc1 l1
  have m2 := Nat.add_le_add h.acc2 l2
  have m3 := Nat.add_le_add h.acc3 l3
  have f0 := Nat.lt_of_le_of_lt m0 hbound
  have f1 := Nat.lt_of_le_of_lt m1 hbound
  have f2 := Nat.lt_of_le_of_lt m2 hbound
  have f3 := Nat.lt_of_le_of_lt m3 hbound
  constructor
  · unfold OverflowChecks.addChunk
    rw [a0, ok_bind, add_ok f0, ok_bind, a1, ok_bind, add_ok f1, ok_bind, a2, ok_bind, add_ok f2,
      ok_bind, a3, ok_bind, add_ok f3, ok_bind]
    rfl
  · exact ⟨(Nat.le_of_eq (toNat_add f0)).trans m0, (Nat.le_of_eq (toNat_add f1)).trans m1,
      (Nat.le_of_eq (toNat_add f2)).trans m2, (Nat.le_of_eq (toNat_add f3)).trans m3⟩

/-- **The loop over the chunks.** -/
theorem foldlM_addChunk {chunks : List Bytes} (hchunks : ∀ c ∈ chunks, c.length = 16)
    {bound : Nat} {acc : UInt32 × UInt32 × UInt32 × UInt32} (h : AtMost bound acc)
    (hbound : bound + 1020 * chunks.length < 2 ^ 32) :
    chunks.foldlM OverflowChecks.addChunk acc = .ok (chunks.foldl Model.Link.addChunk acc) ∧
      AtMost (bound + 1020 * chunks.length) (chunks.foldl Model.Link.addChunk acc) := by
  induction chunks generalizing acc bound with
  | nil => exact ⟨rfl, h⟩
  | cons chunk chunks ih =>
    rw [List.length_cons, Nat.mul_succ, Nat.add_comm _ 1020, ← Nat.add_assoc] at hbound ⊢
    obtain ⟨hstep, hnext⟩ := addChunk_ok (hchunks chunk List.mem_cons_self) h (by omega)
    rw [List.foldlM_cons, hstep, ok_bind, List.foldl_cons]
    exact ih (fun c hc => hchunks c (List.mem_cons_of_mem chunk hc)) hnext hbound

/-- **The loop over the rest.** -/
theorem foldlM_add {rest : Bytes} {sum : UInt32} (h : sum.toNat + 255 * rest.length < 2 ^ 32) :
    rest.foldlM (fun sum b => add sum b.toUInt32) sum =
      .ok (rest.foldl (fun sum b => sum + b.toUInt32) sum) := by
  induction rest generalizing sum with
  | nil => rfl
  | cons b rest ih =>
    have hbyte : b.toUInt32.toNat < 256 := by
      rw [UInt8.toNat_toUInt32]
      exact b.toNat_lt
    rw [List.length_cons] at h
    have hfits : sum.toNat + b.toUInt32.toNat < 2 ^ 32 := by omega
    rw [List.foldlM_cons, add_ok hfits, ok_bind, List.foldl_cons]
    exact ih (by rw [toNat_add hfits]; omega)

/-- **No overflow in a block.** -/
theorem sumBlockU32_ok {data : Bytes} (h : data.length ≤ 1024) :
    OverflowChecks.sumBlockU32 data = .ok (Model.Link.sumBlockU32 data) := by
  have hlength := congrArg List.length (flatten_chunksExact (by decide : 0 < 16) data)
  have hwhole : ∀ c ∈ (chunksExact 16 data).1, c.length = 16 := fun c hc =>
    length_of_mem_chunksExact hc
  have hcount : (chunksExact 16 data).1.flatten.length = (chunksExact 16 data).1.length * 16 := by
    rw [List.length_flatten, List.map_congr_left hwhole, List.map_const', List.sum_replicate_nat]
  rw [List.length_append, hcount] at hlength
  have hzero : AtMost 0 (0, 0, 0, 0) := ⟨Nat.le_refl 0, Nat.le_refl 0, Nat.le_refl 0, Nat.le_refl 0⟩
  obtain ⟨hfold, hacc⟩ := foldlM_addChunk hwhole hzero (by omega)
  unfold OverflowChecks.sumBlockU32
  dsimp only
  rw [hfold, ok_bind]
  generalize hsum : (chunksExact 16 data).1.foldl Model.Link.addChunk (0, 0, 0, 0) = acc at hacc ⊢
  have h0 := hacc.acc0
  have h1 := hacc.acc1
  have h2 := hacc.acc2
  have h3 := hacc.acc3
  have f1 : acc.1.toNat + acc.2.1.toNat < 2 ^ 32 := by omega
  have e1 := toNat_add f1
  have f2 : (acc.1 + acc.2.1).toNat + acc.2.2.1.toNat < 2 ^ 32 := by omega
  have e2 := toNat_add f2
  have f3 : (acc.1 + acc.2.1 + acc.2.2.1).toNat + acc.2.2.2.toNat < 2 ^ 32 := by omega
  have e3 := toNat_add f3
  rw [add_ok f1, ok_bind, add_ok f2, ok_bind, add_ok f3, ok_bind, foldlM_add (by omega), ← hsum]
  rfl

theorem foldlM_blocks {blocks : List Bytes} (h : ∀ block ∈ blocks, block.length ≤ 1024)
    (sum : UInt8) :
    blocks.foldlM (fun (sum : UInt8) block => do
        return sum + (← OverflowChecks.sumBlockU32 block).toUInt8) sum =
      .ok (blocks.foldl (fun sum block => sum + (Model.Link.sumBlockU32 block).toUInt8) sum) := by
  induction blocks generalizing sum with
  | nil => rfl
  | cons block blocks ih =>
    rw [List.foldlM_cons, sumBlockU32_ok (h block List.mem_cons_self), List.foldl_cons]
    exact ih (fun b hb => h b (List.mem_cons_of_mem block hb)) _

end OverflowChecks

/-- **The fast checksum** overflows nowhere and is the plain one; data followed by their checksum
pass both checks. -/
theorem checksum_fast_eq (data : Bytes) :
    OverflowChecks.iap2GenChecksumFast data = .ok (iap2GenChecksumFast data) ∧
      iap2GenChecksumFast data = iap2GenChecksum data ∧
      iap2CheckChecksum (data ++ [iap2GenChecksum data]) = true ∧
      iap2CheckChecksumFast (data ++ [iap2GenChecksumFast data]) = true := by
  refine ⟨?_, ?_, iap2CheckChecksum_append data, iap2CheckChecksumFast_append data⟩
  · unfold OverflowChecks.iap2GenChecksumFast
    rw [OverflowChecks.foldlM_blocks (fun block hb => length_le_of_mem_chunks hb) 0]
    rfl
  · rw [iap2GenChecksumFast_eq, iap2GenChecksum_eq]

example : iap2GenChecksumFast [0xFF, 0x5A, 0x00, 0x1A] = 0x8D := by decide

end Catplay.Analysis.Link
