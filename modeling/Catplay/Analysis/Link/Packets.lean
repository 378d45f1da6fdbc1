import Catplay.Library.Maps
import Catplay.Model.Link.PacketCoder

/-!
# Packets on the link

Sequence numbers as positions, the fields of built packets, and the checksums.
-/

set_option autoImplicit false

/-!
## Sequence numbers as positions

The packets of one direction are counted by natural numbers, and position `i` is
transmitted as the 8-bit number `seqAt base i`. Within half the circle the wrapping
order of the numbers is the order of the positions.
-/

namespace Catplay.Analysis.Link

open Catplay.Model.Link

/-- The number of the packet at position `i`, counted from `base`. -/
def seqAt (base : ModSeq8) (i : Nat) : ModSeq8 := base + UInt8.ofNat i

/-- Equal sequence numbers compare as equal, and only they. -/
theorem partialCmp_eq_iff {x y : ModSeq8} : ModSeq8.partialCmp x y = some .eq ↔ x = y := by
  unfold ModSeq8.partialCmp
  constructor
  · intro h
    by_contra hne
    have hsub : x - y ≠ 0 := fun h0 => hne (by grind)
    simp only [hsub, if_false] at h
    split at h
    · cases h
    · split at h <;> cases h
  · rintro rfl
    simp

@[simp] theorem seqAt_zero (base : ModSeq8) : seqAt base 0 = base := by
  unfold seqAt
  simp

theorem seqAt_succ (base : ModSeq8) (i : Nat) : seqAt base (i + 1) = seqAt base i + 1 := by
  unfold seqAt
  have hofNat : UInt8.ofNat (i + 1) = UInt8.ofNat i + 1 := by simp [UInt8.ofNat_add]
  rw [hofNat, UInt8.add_assoc]

theorem seqAt_toNat (base : ModSeq8) (i : Nat) : (seqAt base i).toNat = (base.toNat + i) % 256 := by
  unfold seqAt
  simp [UInt8.toNat_add]

/-- The distance of two numbers is the distance of their positions. -/
theorem seqAt_sub (base : ModSeq8) {i j : Nat} (h : j ≤ i) :
    (seqAt base i - seqAt base j).toNat = (i - j) % 256 := by
  rw [UInt8.toNat_sub, seqAt_toNat, seqAt_toNat]
  omega

/-- Numbers determine positions within one turn of the circle. -/
theorem seqAt_inj (base : ModSeq8) {i j : Nat} (hij : i < j + 256) (hji : j < i + 256)
    (h : seqAt base i = seqAt base j) : i = j := by
  have hnat := congrArg UInt8.toNat h
  rw [seqAt_toNat, seqAt_toNat] at hnat
  omega

/-- Within half the circle a later position compares as greater. -/
theorem partialCmp_seqAt_gt {base : ModSeq8} {i j : Nat} (hij : i < j + 128) (h : j < i) :
    ModSeq8.partialCmp (seqAt base i) (seqAt base j) = some .gt := by
  have hdist := seqAt_sub base (Nat.le_of_lt h)
  have hsmall : (i - j) % 256 = i - j := Nat.mod_eq_of_lt (by omega)
  unfold ModSeq8.partialCmp ModSeq8.half
  dsimp only
  generalize seqAt base i - seqAt base j = d at hdist ⊢
  have hne : d ≠ 0 := by
    rintro rfl
    simp at hdist
    omega
  have hhalf : d ≠ 128 := by
    rintro rfl
    simp at hdist
    omega
  have hlt : d < 128 := by
    rw [UInt8.lt_iff_toNat_lt]
    simp
    omega
  simp [hne, hhalf, hlt]

/-- Within half the circle an earlier position does not compare as greater. -/
theorem partialCmp_seqAt_ne_gt (base : ModSeq8) {i j : Nat} (hij : j ≤ i + 128) (h : i ≤ j) :
    ModSeq8.partialCmp (seqAt base i) (seqAt base j) ≠ some .gt := by
  have hdist : (seqAt base i - seqAt base j).toNat = (256 - (j - i)) % 256 := by
    rw [UInt8.toNat_sub, seqAt_toNat, seqAt_toNat]
    omega
  unfold ModSeq8.partialCmp ModSeq8.half
  dsimp only
  generalize seqAt base i - seqAt base j = d at hdist ⊢
  split
  · simp
  · rename_i hne
    split
    · simp
    · have hpos : d.toNat ≠ 0 := fun h0 => hne (UInt8.toNat_inj.mp (by simpa using h0))
      have hnot : ¬ d < 128 := by
        rw [UInt8.lt_iff_toNat_lt]
        intro hlt
        have hlt' : d.toNat < 128 := hlt
        omega
      rw [if_neg hnot]
      decide

/-- The operator `>` on positions within half the circle. -/
theorem gt_seqAt {base : ModSeq8} {i j : Nat} (hij : i < j + 128) (hji : j ≤ i + 128) :
    ModSeq8.gt (seqAt base i) (seqAt base j) = decide (j < i) := by
  unfold ModSeq8.gt
  by_cases h : j < i
  · simp [h, partialCmp_seqAt_gt hij h]
  · have hne := partialCmp_seqAt_ne_gt base hji (Nat.le_of_not_lt h)
    simp [h, hne]

/-- A number that compares as greater is at most 127 steps ahead. -/
theorem gt_distance {x y : ModSeq8} (h : ModSeq8.partialCmp x y = some .gt) :
    0 < (x - y).toNat ∧ (x - y).toNat < 128 := by
  unfold ModSeq8.partialCmp ModSeq8.half at h
  dsimp only at h
  generalize x - y = d at h ⊢
  split at h
  · cases h
  · rename_i hzero
    split at h
    · cases h
    · split at h
      · rename_i hlt
        have hpos : d.toNat ≠ 0 := fun h0 => hzero (UInt8.toNat_inj.mp (by simpa using h0))
        have hsmall : d.toNat < 128 := hlt
        omega
      · cases h

/-- The number at a distance from the one after position `n`. -/
theorem seqAt_distance (base : ModSeq8) (n : Nat) (x : ModSeq8) :
    x = seqAt base (n + (x - seqAt base (n + 1)).toNat + 1) := by
  apply UInt8.toNat_inj.mp
  have hx := x.toNat_lt
  have hbase := base.toNat_lt
  rw [seqAt_toNat, UInt8.toNat_sub, seqAt_toNat]
  omega

end Catplay.Analysis.Link

/-!
## The packets the constructors build

The constructors of packets fill in the length and change nothing else, so each field
of a built packet can be read off its arguments. The control values of the three kinds
exclude each other.
-/

namespace Catplay.Analysis.Link

open Catplay.Library Catplay.Model.Link

/-- Filling in the length keeps everything else. -/
theorem fixLength_eq_some {q p : Packet} (h : q.fixLength = some p) :
    ∃ length, p = { q with header := { q.header with length } } := by
  unfold Packet.fixLength at h
  split at h
  · split at h
    · cases h
    · obtain rfl := Option.some.inj h
      exact ⟨_, rfl⟩
  · obtain rfl := Option.some.inj h
    exact ⟨_, rfl⟩

/-- The fields of a SYN. -/
theorem newSyn_eq_some {ownSeq : ModSeq8} {lsp : LSPPayload} {p : Packet}
    (h : Packet.newSyn ownSeq lsp = some p) :
    p.header.control = .SYN ∧ p.header.seq = ownSeq ∧ p.payload = some lsp.toBytes := by
  obtain ⟨length, rfl⟩ := fixLength_eq_some h
  exact ⟨rfl, rfl, rfl⟩

/-- The fields of a SYN+ACK. -/
theorem newSynAck_eq_some {ownSeq peerSeq : ModSeq8} {lsp : LSPPayload} {p : Packet}
    (h : Packet.newSynAck ownSeq peerSeq lsp = some p) :
    p.header.control = LinkControl.SYN.union .ACK ∧ p.header.seq = ownSeq ∧
      p.header.ack = peerSeq ∧ p.payload = some lsp.toBytes := by
  obtain ⟨length, rfl⟩ := fixLength_eq_some h
  exact ⟨rfl, rfl, rfl, rfl⟩

/-- The fields of an ACK. -/
theorem newAck_eq_some {ownSeq peerSeq : ModSeq8} {sessionId : UInt8} {payload : Option Bytes}
    {p : Packet} (h : Packet.newAck ownSeq peerSeq sessionId payload = some p) :
    p.header.control = .ACK ∧ p.header.seq = ownSeq ∧ p.header.ack = peerSeq ∧
      p.header.sessionId = sessionId ∧ p.payload = payload := by
  obtain ⟨length, rfl⟩ := fixLength_eq_some h
  exact ⟨rfl, rfl, rfl, rfl, rfl⟩

section Control

variable {p : Packet}

theorem isExactly_iff {control flags : LinkControl} :
    control.isExactly flags = true ↔ control = flags := by
  cases control
  cases flags
  simp [LinkControl.isExactly]

theorem isSyn_iff : p.header.control.isSyn = true ↔ p.header.control = .SYN :=
  isExactly_iff

theorem isAck_iff : p.header.control.isAck = true ↔ p.header.control = .ACK :=
  isExactly_iff

theorem isSynAck_iff :
    p.header.control.isSynAck = true ↔ p.header.control = LinkControl.SYN.union .ACK :=
  isExactly_iff

theorem isEak_iff :
    p.header.control.isEak = true ↔ p.header.control = LinkControl.ACK.union .EAK :=
  isExactly_iff

/-- A SYN must be acknowledged. -/
theorem isAckable_of_syn (h : p.header.control = .SYN) : p.isAckable = true := by
  unfold Packet.isAckable
  simp [isSyn_iff.mpr h]

/-- A SYN+ACK with a payload must be acknowledged. -/
theorem isAckable_of_synAck (h : p.header.control = LinkControl.SYN.union .ACK)
    (hpayload : p.payload.isSome) : p.isAckable = true := by
  unfold Packet.isAckable
  simp [isSynAck_iff.mpr h, hpayload]

/-- An ACK must be acknowledged exactly when it carries a payload. -/
theorem isAckable_of_ack (h : p.header.control = .ACK) : p.isAckable = p.payload.isSome := by
  have hsyn : p.header.control.isSyn = false := by
    rw [h]
    rfl
  unfold Packet.isAckable
  simp [isAck_iff.mpr h, hsyn]

end Control

end Catplay.Analysis.Link

/-!
## The checksums of the link

Both checksums are the negated sum of the bytes (`iap2GenChecksum_eq`,
`iap2GenChecksumFast_eq`), so data followed by its checksum passes the check.
-/

namespace Catplay.Analysis.Link

open Catplay.Library Catplay.Model.Link

theorem foldl_add_eq_sum (data : Bytes) (acc : UInt8) :
    data.foldl (fun acc b => acc + b) acc = acc + data.sum := by
  induction data generalizing acc with
  | nil => grind
  | cons b data ih =>
    rw [List.foldl_cons, ih, List.sum_cons]
    grind

/-- The checksum is the sum, negated. -/
theorem iap2GenChecksum_eq (data : Bytes) : iap2GenChecksum data = -data.sum := by
  unfold iap2GenChecksum
  rw [foldl_add_eq_sum, UInt8.neg_eq_not_add, UInt8.zero_add]

/-! ### The fast sum -/

theorem sum_map_getD_range (l : Bytes) (n : Nat) (hl : l.length ≤ n) :
    ((List.range n).map fun i => l.getD i 0).sum = l.sum := by
  induction l generalizing n with
  | nil =>
    have hzero : ∀ n, ((List.range n).map fun i => ([] : Bytes).getD i 0).sum = 0 := by
      intro n
      induction n with
      | zero => rfl
      | succ n ih =>
        rw [List.range_succ, List.map_append, List.sum_append, ih]
        rfl
    exact hzero n
  | cons b l ih =>
    obtain ⟨n, rfl⟩ : ∃ m, n = m + 1 := ⟨n - 1, by simp at hl; omega⟩
    have hl' : l.length ≤ n := by simpa using hl
    rw [List.range_succ_eq_map, List.map_cons, List.sum_cons, List.map_map, List.sum_cons]
    have htail : ((List.range n).map ((fun i => (b :: l).getD i 0) ∘ Nat.succ)).sum = l.sum := by
      rw [← ih n hl']
      rfl
    rw [htail]
    rfl

/-- The four sums together, in one byte. -/
def accSum (acc : UInt32 × UInt32 × UInt32 × UInt32) : UInt8 :=
  (acc.1 + acc.2.1 + acc.2.2.1 + acc.2.2.2).toUInt8

theorem accSum_addChunk (acc : UInt32 × UInt32 × UInt32 × UInt32) (chunk : Bytes)
    (hchunk : chunk.length ≤ 16) : accSum (addChunk acc chunk) = accSum acc + chunk.sum := by
  rw [← sum_map_getD_range chunk 16 hchunk]
  simp only [accSum, addChunk, UInt32.toUInt8_add, UInt8.toUInt8_toUInt32]
  simp only [show List.range 16 = [0, 1, 2, 3, 4, 5, 6, 7, 8, 9, 10, 11, 12, 13, 14, 15] from rfl,
    List.map_cons, List.map_nil, List.sum_cons, List.sum_nil]
  grind

theorem accSum_foldl (chunks : List Bytes) (acc : UInt32 × UInt32 × UInt32 × UInt32)
    (hchunks : ∀ c ∈ chunks, c.length ≤ 16) :
    accSum (chunks.foldl addChunk acc) = accSum acc + chunks.flatten.sum := by
  induction chunks generalizing acc with
  | nil => simp
  | cons c chunks ih =>
    rw [List.foldl_cons, ih _ fun d hd => hchunks d (List.mem_cons_of_mem _ hd),
      accSum_addChunk acc c (hchunks c List.mem_cons_self), List.flatten_cons, List.sum_append]
    grind

theorem toUInt8_foldl (data : Bytes) (acc : UInt32) :
    (data.foldl (fun sum b => sum + b.toUInt32) acc).toUInt8 = acc.toUInt8 + data.sum := by
  induction data generalizing acc with
  | nil => grind
  | cons b data ih =>
    rw [List.foldl_cons, ih, List.sum_cons, UInt32.toUInt8_add, UInt8.toUInt8_toUInt32]
    grind

theorem toUInt8_sumBlockU32 (data : Bytes) : (sumBlockU32 data).toUInt8 = data.sum := by
  have hacc := accSum_foldl (chunksExact 16 data).1 (0, 0, 0, 0)
    fun c hc => length_le_of_mem_chunksExact hc
  have hsum : data.sum = (chunksExact 16 data).1.flatten.sum + (chunksExact 16 data).2.sum := by
    rw [← List.sum_append, flatten_chunksExact (by decide)]
  unfold sumBlockU32
  rw [toUInt8_foldl, hsum]
  rw [show accSum (0, 0, 0, 0) = 0 from rfl, UInt8.zero_add] at hacc
  rw [← hacc]
  rfl

theorem foldl_blocks (blocks : List Bytes) (acc : UInt8) :
    blocks.foldl (fun sum block => sum + (sumBlockU32 block).toUInt8) acc =
      acc + blocks.flatten.sum := by
  induction blocks generalizing acc with
  | nil => simp
  | cons block blocks ih =>
    rw [List.foldl_cons, ih, toUInt8_sumBlockU32, List.flatten_cons, List.sum_append]
    grind

/-- **The fast checksum is the checksum.** -/
theorem iap2GenChecksumFast_eq (data : Bytes) : iap2GenChecksumFast data = -data.sum := by
  unfold iap2GenChecksumFast
  rw [foldl_blocks, flatten_chunks (by decide), UInt8.neg_eq_not_add, UInt8.zero_add]

/-! ### Data with its checksum -/

theorem iap2CheckChecksum_append (data : Bytes) :
    iap2CheckChecksum (data ++ [iap2GenChecksum data]) = true := by
  unfold iap2CheckChecksum
  rw [iap2GenChecksum_eq, iap2GenChecksum_eq, List.sum_append, List.sum_singleton]
  grind

theorem iap2CheckChecksumFast_append (data : Bytes) :
    iap2CheckChecksumFast (data ++ [iap2GenChecksumFast data]) = true := by
  unfold iap2CheckChecksumFast
  rw [iap2GenChecksumFast_eq, iap2GenChecksumFast_eq, List.sum_append, List.sum_singleton]
  grind

end Catplay.Analysis.Link
