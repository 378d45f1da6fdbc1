import Catplay.Analysis.Ring.Storage

/-!
# The timeline of the ring

What the ring holds of its timeline, and what the readable slice has of it.
-/

set_option autoImplicit false

/-!
## The ring as a window on a timeline

The timeline is the list of everything that was written, with a hole for every position that
was skipped. The ring refines it (`Refines`): of the last `capacity` positions it knows the
sample or the hole. Writing keeps the refinement when every sample lands on its own position
(`Refines.write`), and so do default samples and skipped time.
-/

namespace Catplay.Analysis.Ring

open Catplay.Model.Ring Catplay.Model.Ring.RingBuffer

variable {T : Type}

/-! ### The timeline -/

/-- Everything that was written, `none` where time was skipped, and the next position to
read. -/
structure Timeline (T : Type) where
  cells : List (Option T)
  read : Nat

/-- What a reader is told about one position. -/
inductive Slot (T : Type)
  | data (sample : T)
  | gap
  | overflow
  | underflow
  deriving DecidableEq, Repr

def Slot.isUnderflow : Slot T → Bool
  | underflow => true
  | _ => false

/-- A position of the timeline, seen through the last `cap` positions of it. -/
def Timeline.slotAt (t : Timeline T) (cap p : Nat) : Slot T :=
  if p + cap < t.cells.length then .overflow
  else
    match t.cells[p]? with
    | some (some sample) => .data sample
    | some none => .gap
    | none => .underflow

/-- The requested positions, without those that are still to be written on request. -/
def Timeline.slots (t : Timeline T) (cap requested : Nat) (emitUnderflow : Bool) : List (Slot T) :=
  let all := (List.range' t.read requested).map (t.slotAt cap)
  if emitUnderflow then all else all.filter fun slot => !slot.isUnderflow

/-- The positions a segment speaks about. -/
def slotsOf : RingSegment T → List (Slot T)
  | .data samples => samples.map .data
  | .gap count => List.replicate count .gap
  | .overflow count => List.replicate count .overflow
  | .underflow count => List.replicate count .underflow

theorem length_slotsOf (segment : RingSegment T) : (slotsOf segment).length = segment.len := by
  cases segment <;> simp [slotsOf, RingSegment.len]

/-! ### Ring positions -/

theorem mod_add_eq (old cap j : Nat) (hj : j < cap) :
    (old + j) % cap =
      if old % cap + j < cap then old % cap + j else old % cap + j - cap := by
  have hold : old % cap < cap := Nat.mod_lt _ (by omega)
  rw [Nat.add_mod, Nat.mod_eq_of_lt hj]
  by_cases hsum : old % cap + j < cap
  · rw [if_pos hsum, Nat.mod_eq_of_lt hsum]
  · rw [if_neg hsum, Nat.mod_eq_sub_mod (by omega), Nat.mod_eq_of_lt (by omega)]

/-- The ring positions of `count` logical positions from one at ring position `head` on. -/
def InRegion (cap head count i : Nat) : Prop :=
  (head ≤ i ∧ i < head + count) ∨ i + cap < head + count

instance (cap head count i : Nat) : Decidable (InRegion cap head count i) := by
  unfold InRegion
  infer_instance

/-- Within one round the region has the next `count` positions. -/
theorem inRegion_iff {old cap j : Nat} (hj : j < cap) (count : Nat) :
    InRegion cap (old % cap) count ((old + j) % cap) ↔ j < count := by
  have hold : old % cap < cap := Nat.mod_lt _ (by omega)
  unfold InRegion
  rw [mod_add_eq old cap j hj]
  split <;> omega

/-- What the ring knows about a ring position. -/
def cellAt (r : RingBuffer T) (i : Nat) : Option T :=
  if bit r.gaps i then none else r.ring.asSlice[i]?

/-- **Refinement.** The ring holds the last `capacity` positions of the timeline. -/
structure Refines (r : RingBuffer T) (t : Timeline T) : Prop where
  pow : ∃ k, r.capacity = 2 ^ k
  mask : r.mask = r.capacity - 1
  mirrored : Mirrored r.ring r.capacity
  sound : Sound r.gaps
  gapsCapacity : r.gaps.capacity = r.capacity
  written : r.writeHead = t.cells.length
  read : r.readHead = t.read
  cells : ∀ p, p < t.cells.length → t.cells.length ≤ p + r.capacity →
    t.cells[p]? = some (cellAt r (p % r.capacity))

/-- The capacity, the mask and the gaps of a ring, whatever its cells hold. -/
structure Framed (r : RingBuffer T) : Prop where
  pow : ∃ k, r.capacity = 2 ^ k
  mask : r.mask = r.capacity - 1
  sound : Sound r.gaps
  gapsCapacity : r.gaps.capacity = r.capacity

variable {r : RingBuffer T} {t : Timeline T} {cap count head i : Nat}

theorem Framed.capacity_pos (h : Framed r) : 0 < r.capacity := by
  obtain ⟨k, hk⟩ := h.pow
  rw [hk]
  exact Nat.two_pow_pos k

theorem Framed.ringIndex (h : Framed r) (p : Nat) :
    r.logicalToRingIndex p = p % r.capacity := by
  obtain ⟨k, hk⟩ := h.pow
  unfold RingBuffer.logicalToRingIndex
  rw [h.mask, hk, Nat.and_two_pow_sub_one_eq_mod]

theorem Refines.framed (h : Refines r t) : Framed r :=
  ⟨h.pow, h.mask, h.sound, h.gapsCapacity⟩

theorem Refines.capacity_pos (h : Refines r t) :
    0 < r.capacity := h.framed.capacity_pos

theorem Refines.ringIndex (h : Refines r t) (p : Nat) :
    r.logicalToRingIndex p = p % r.capacity := h.framed.ringIndex p

/-- **Growing the timeline.** Only the new positions change the ring, and those of them that
stay in the window are shown there. -/
theorem Refines.extend {r' : RingBuffer T} (h : Refines r t)
    (added : List (Option T)) (hcapacity : r'.capacity = r.capacity) (hmask : r'.mask = r.mask)
    (hmirrored : Mirrored r'.ring r.capacity) (hsound : Sound r'.gaps)
    (hgaps : r'.gaps.capacity = r.capacity) (hread : r'.readHead = r.readHead)
    (hwritten : r'.writeHead = t.cells.length + added.length)
    (hkeep : ∀ i, i < r.capacity →
      ¬InRegion r.capacity (t.cells.length % r.capacity) (min added.length r.capacity) i →
      cellAt r' i = cellAt r i)
    (hnew : ∀ j, j < added.length → added.length ≤ j + r.capacity →
      added[j]? = some (cellAt r' ((t.cells.length + j) % r.capacity))) :
    Refines r' { t with cells := t.cells ++ added } := by
  have hcap := h.capacity_pos
  refine ⟨hcapacity ▸ h.pow, by rw [hmask, hcapacity, h.mask], hcapacity.symm ▸ hmirrored, hsound,
    hgaps.trans hcapacity.symm, by rw [hwritten, List.length_append], hread.trans h.read, ?_⟩
  intro p hp hwindow
  dsimp only at hp hwindow ⊢
  rw [List.length_append] at hp hwindow
  rw [hcapacity] at hwindow ⊢
  by_cases hold : p < t.cells.length
  · rw [List.getElem?_append_left hold, h.cells p hold (by omega)]
    congr 1
    symm
    apply hkeep _ (Nat.mod_lt _ hcap)
    -- an older position is less than a round behind the new ones
    have hround : p % r.capacity =
        (t.cells.length + (p + r.capacity - t.cells.length)) % r.capacity := by
      rw [show t.cells.length + (p + r.capacity - t.cells.length) = p + r.capacity by omega,
        Nat.add_mod_right]
    rw [hround, inRegion_iff (by omega)]
    omega
  · rw [List.getElem?_append_right (by omega), hnew _ (by omega) (by omega)]
    congr 3
    omega

/-! ### Writing -/

/-- Two bounded regions of ring positions make up one that wraps. -/
theorem inRegion_split (hhead : head < cap) (hi : i < cap) :
    InRegion cap head count i ↔
      (head ≤ i ∧ i < head + min (cap - head) count) ∨ i < count - min (cap - head) count := by
  unfold InRegion
  omega

theorem bit_unmark {gaps : Bitmap} (h : Sound gaps) (hcapacity : gaps.capacity = cap)
    (hhead : head < cap) (hcount : count ≤ cap) (hi : i < cap) :
    bit ((gaps.unmarkRegion head (min (cap - head) count)).unmarkRegion 0
      (count - min (cap - head) count)) i = true ↔
        bit gaps i = true ∧ ¬InRegion cap head count i := by
  rw [bit_unmarkRegion (h.unmarkRegion _ _) (by rw [capacity_unmarkRegion]; omega),
    bit_unmarkRegion h (by omega), inRegion_split hhead hi]
  simp only [Bool.and_eq_true, Bool.not_eq_true', decide_eq_false_iff_not, and_assoc]
  refine and_congr_right fun _ => ?_
  omega

theorem bit_mark {gaps : Bitmap} (h : Sound gaps) (hcapacity : gaps.capacity = cap)
    (hhead : head < cap) (hcount : count ≤ cap) (hi : i < cap) :
    bit ((gaps.markRegion head (min (cap - head) count)).markRegion 0
      (count - min (cap - head) count)) i = true ↔
        bit gaps i = true ∨ InRegion cap head count i := by
  rw [bit_markRegion (h.markRegion _ _) (by rw [capacity_markRegion]; omega),
    bit_markRegion h (by omega), inRegion_split hhead hi]
  simp only [Bool.or_eq_true, decide_eq_true_eq, or_assoc]
  refine or_congr_right ?_
  omega

/-- The cell of a written position is its sample. -/
theorem cellAfterWrite_at {storage : RingStorage T} {old j : Nat} {src : List T}
    (hj : j < src.length) (hsrc : src.length ≤ cap) :
    cellAfterWrite storage cap (old % cap) src ((old + j) % cap) = src[j]? := by
  have hold : old % cap < cap := Nat.mod_lt _ (by omega)
  unfold cellAfterWrite
  rw [mod_add_eq old cap j (by omega)]
  by_cases hsum : old % cap + j < cap
  · rw [if_pos hsum, if_pos (by omega)]
    congr 1
    omega
  · rw [if_neg hsum, if_neg (by omega), if_pos (by omega)]
    congr 1
    omega

theorem cellAfterWrite_elsewhere {storage : RingStorage T} {src : List T}
    (hi : ¬InRegion cap head src.length i) :
    cellAfterWrite storage cap head src i = storage.asSlice[i]? := by
  unfold InRegion at hi
  unfold cellAfterWrite
  rw [if_neg (by omega), if_neg (by omega)]

/-- **Writing samples.** They extend the timeline when each one that stays in the window lands
on its own position. -/
theorem Refines.writeSamples (h : Refines r t)
    (src : List T) (added : List (Option T)) (hnonempty : 0 < src.length)
    (hsrc : src.length = min added.length r.capacity)
    (hroom : r.writeHead + added.length < 2 ^ 64)
    (hlands : ∀ j, j < added.length → added.length ≤ j + r.capacity →
      ∃ sample, added[j]? = some (some sample) ∧ src[j % r.capacity]? = some sample) :
    Refines ((r.writeInto src).writeCommitAdvance src.length added.length)
      { t with cells := t.cells ++ added } := by
  have hcap := h.capacity_pos
  have hhead : r.writeHead % r.capacity < r.capacity := Nat.mod_lt _ hcap
  have hfits : src.length ≤ r.capacity := by omega
  obtain ⟨hmirrored, hcells⟩ := mirrored_store h.mirrored hhead hfits
  have hindex := h.ringIndex r.writeHead
  have hring : ((r.writeInto src).writeCommitAdvance src.length added.length).ring =
      store r.ring r.capacity (r.writeHead % r.capacity) src := by
    unfold RingBuffer.writeCommitAdvance RingBuffer.writeInto store
    dsimp only
    rw [if_pos hnonempty]
    unfold RingBuffer.logicalToRingIndex at hindex ⊢
    dsimp only
    rw [hindex]
  have hgaps : ((r.writeInto src).writeCommitAdvance src.length added.length).gaps =
      (r.gaps.unmarkRegion (r.writeHead % r.capacity)
        (min (r.capacity - r.writeHead % r.capacity) src.length)).unmarkRegion 0
          (src.length - min (r.capacity - r.writeHead % r.capacity) src.length) := by
    unfold RingBuffer.writeCommitAdvance RingBuffer.writeInto
    dsimp only
    unfold RingBuffer.logicalToRingIndex at hindex ⊢
    dsimp only
    rw [hindex]
  have hcellAt : ∀ i, i < r.capacity →
      cellAt ((r.writeInto src).writeCommitAdvance src.length added.length) i =
        if bit r.gaps i = true ∧
            ¬InRegion r.capacity (r.writeHead % r.capacity) src.length i then none
        else cellAfterWrite r.ring r.capacity (r.writeHead % r.capacity) src i := by
    intro i hi
    unfold cellAt
    rw [hring, hgaps, hcells i hi]
    simp only [bit_unmark h.sound h.gapsCapacity hhead hfits hi]
  refine h.extend added rfl rfl (hring ▸ hmirrored) ?_ ?_ rfl ?_ ?_ ?_
  · rw [hgaps]
    exact (h.sound.unmarkRegion _ _).unmarkRegion _ _
  · rw [hgaps, capacity_unmarkRegion, capacity_unmarkRegion]
    exact h.gapsCapacity
  · show fetchAdd r.writeHead added.length = t.cells.length + added.length
    unfold fetchAdd
    rw [Nat.mod_eq_of_lt hroom, h.written]
  · intro i hi houtside
    rw [← h.written, ← hsrc] at houtside
    rw [hcellAt i hi]
    unfold cellAt
    rw [cellAfterWrite_elsewhere houtside]
    simp only [houtside, not_false_eq_true, and_true]
  · intro j hj hwindow
    obtain ⟨sample, hadded, hsample⟩ := hlands j hj hwindow
    have hlt : j % r.capacity < src.length := by
      by_cases hshort : added.length ≤ r.capacity
      · rw [Nat.mod_eq_of_lt (by omega)]
        omega
      · have hmod := Nat.mod_lt j hcap
        omega
    have hround : (t.cells.length + j) % r.capacity =
        (r.writeHead + j % r.capacity) % r.capacity := by
      rw [h.written, Nat.add_mod_mod]
    have hin : InRegion r.capacity (r.writeHead % r.capacity) src.length
        ((r.writeHead + j % r.capacity) % r.capacity) :=
      (inRegion_iff (Nat.mod_lt _ hcap) _).mpr hlt
    rw [hadded, hround, hcellAt _ (Nat.mod_lt _ hcap), if_neg (fun hgap => hgap.2 hin),
      cellAfterWrite_at hlt hfits, hsample]

/-- The samples that a write keeps. -/
def kept (cap : Nat) (input : List T) : List T := input.drop (input.length - min input.length cap)

/-- A write of more samples than fit puts the last ones where they belong only when they read
the same from the position that the write ends on. -/
def LandsInPlace (cap : Nat) (input : List T) : Prop :=
  input.length ≤ cap ∨
    ∀ j, j < cap → (kept cap input)[(input.length + j) % cap]? = (kept cap input)[j]?

theorem Refines.write (h : Refines r t) {input : List T}
    (hroom : r.writeHead + input.length < 2 ^ 64) (hlands : LandsInPlace r.capacity input) :
    Refines (r.write input).1 { t with cells := t.cells ++ input.map some } := by
  have hcap := h.capacity_pos
  unfold RingBuffer.write
  dsimp only
  by_cases hempty : input.length = 0
  · rw [if_pos hempty, List.length_eq_zero_iff.mp hempty, List.map_nil, List.append_nil]
    exact h
  · rw [if_neg hempty]
    have hkept : (input.drop (input.length - min input.length r.capacity)).length =
        min input.length r.capacity := by
      rw [List.length_drop]
      omega
    have hmap : (input.map some).length = input.length := List.length_map _
    have hwrite := h.writeSamples (kept r.capacity input) (input.map some)
      (by unfold kept; omega) (by unfold kept; omega) (by omega) ?_
    · rw [hmap] at hwrite
      unfold kept at hwrite
      rw [hkept] at hwrite
      exact hwrite
    · intro j hj hwindow
      rw [hmap] at hj hwindow
      refine ⟨input[j], ?_, ?_⟩
      · rw [List.getElem?_map, List.getElem?_eq_getElem hj]
        rfl
      · rcases hlands with hshort | hrotated
        · unfold kept
          rw [Nat.mod_eq_of_lt (by omega), show input.length - min input.length r.capacity = 0
            by omega, List.drop_zero, List.getElem?_eq_getElem hj]
        · by_cases hshort : input.length ≤ r.capacity
          · unfold kept
            rw [Nat.mod_eq_of_lt (by omega), show input.length - min input.length r.capacity = 0
              by omega, List.drop_zero, List.getElem?_eq_getElem hj]
          · have hplace := hrotated (j + r.capacity - input.length) (by omega)
            rw [show input.length + (j + r.capacity - input.length) = j + r.capacity by omega,
              Nat.add_mod_right] at hplace
            rw [hplace]
            unfold kept
            rw [List.getElem?_drop, show input.length - min input.length r.capacity +
              (j + r.capacity - input.length) = j by omega, List.getElem?_eq_getElem hj]

theorem Refines.writeDefault [Inhabited T] (h : Refines r t)
    (hroom : r.writeHead + count < 2 ^ 64) :
    Refines (r.writeDefault count)
      { t with cells := t.cells ++ List.replicate count (some default) } := by
  have hcap := h.capacity_pos
  unfold RingBuffer.writeDefault
  by_cases hempty : count = 0
  · rw [if_pos hempty, hempty, List.replicate_zero, List.append_nil]
    exact h
  · rw [if_neg hempty]
    have hadded : (List.replicate count (some (default : T))).length = count :=
      List.length_replicate
    have hsrc : (List.replicate (min count r.capacity) (default : T)).length =
        min count r.capacity := List.length_replicate
    have hwrite := h.writeSamples (List.replicate (min count r.capacity) (default : T))
      (List.replicate count (some default)) (by omega) (by omega) (by omega) ?_
    · rw [hadded, hsrc] at hwrite
      exact hwrite
    · intro j hj hwindow
      rw [hadded] at hj hwindow
      refine ⟨default, ?_, ?_⟩
      · rw [List.getElem?_replicate, if_pos hj]
      · rw [List.getElem?_replicate, if_pos]
        have hmod := Nat.mod_lt j hcap
        have hle := Nat.mod_le j r.capacity
        omega

/-- **Skipping time** leaves holes, in the ring as on the timeline. -/
theorem Refines.advanceTimeline (h : Refines r t)
    {size : Nat} (hroom : r.writeHead + size < 2 ^ 64) :
    Refines (r.advanceTimeline size) { t with cells := t.cells ++ List.replicate size none } := by
  have hcap := h.capacity_pos
  have hhead : r.writeHead % r.capacity < r.capacity := Nat.mod_lt _ hcap
  have hindex := h.ringIndex r.writeHead
  unfold RingBuffer.advanceTimeline
  dsimp only
  by_cases hempty : size = 0
  · rw [if_pos hempty, hempty, List.replicate_zero, List.append_nil]
    exact h
  rw [if_neg hempty, hindex]
  have hadded : (List.replicate size (none : Option T)).length = size := List.length_replicate
  have hmark := fun i hi => bit_mark h.sound h.gapsCapacity hhead
    (Nat.min_le_right size r.capacity) (i := i) hi
  have hsound := (h.sound.markRegion (r.writeHead % r.capacity)
    (min (r.capacity - r.writeHead % r.capacity) (min size r.capacity))).markRegion 0
      (min size r.capacity - min (r.capacity - r.writeHead % r.capacity) (min size r.capacity))
  have hgapsCapacity : ((r.gaps.markRegion (r.writeHead % r.capacity)
    (min (r.capacity - r.writeHead % r.capacity) (min size r.capacity))).markRegion 0
      (min size r.capacity - min (r.capacity - r.writeHead % r.capacity)
        (min size r.capacity))).capacity = r.capacity := by
    rw [capacity_markRegion, capacity_markRegion, h.gapsCapacity]
  generalize (r.gaps.markRegion (r.writeHead % r.capacity)
    (min (r.capacity - r.writeHead % r.capacity) (min size r.capacity))).markRegion 0
      (min size r.capacity - min (r.capacity - r.writeHead % r.capacity)
        (min size r.capacity)) = gaps at hmark hsound hgapsCapacity ⊢
  have hunmarked : ∀ head, (gaps.unmarkRegion head (min (r.capacity - head) 0)).unmarkRegion 0
      (0 - min (r.capacity - head) 0) = gaps := by
    intro head
    rw [Nat.min_zero]
    unfold Bitmap.unmarkRegion
    rw [if_pos (Or.inl rfl), if_pos (Or.inl rfl)]
  have hcommit : ({ r with gaps }.writeCommitAdvance 0 size) =
      { r with gaps, writeHead := fetchAdd r.writeHead size } := by
    unfold RingBuffer.writeCommitAdvance
    dsimp only
    rw [hunmarked, if_neg (Nat.lt_irrefl 0)]
  rw [hcommit]
  have hcellAt : ∀ i, i < r.capacity →
      cellAt { r with gaps, writeHead := fetchAdd r.writeHead size } i =
        if InRegion r.capacity (r.writeHead % r.capacity) (min size r.capacity) i then none
        else cellAt r i := by
    intro i hi
    unfold cellAt
    dsimp only
    by_cases hin : InRegion r.capacity (r.writeHead % r.capacity) (min size r.capacity) i
    · rw [if_pos ((hmark i hi).mpr (Or.inr hin)), if_pos hin]
    · rw [if_neg hin]
      simp only [hmark i hi, hin, or_false]
  refine h.extend (List.replicate size none) rfl rfl h.mirrored hsound hgapsCapacity rfl ?_ ?_ ?_
  · show fetchAdd r.writeHead size = _
    unfold fetchAdd
    rw [hadded, Nat.mod_eq_of_lt hroom, h.written]
  · intro i hi houtside
    rw [hadded, ← h.written] at houtside
    rw [hcellAt i hi, if_neg houtside]
  · intro j hj hwindow
    rw [hadded] at hj hwindow
    have hround : (t.cells.length + j) % r.capacity =
        (r.writeHead + j % r.capacity) % r.capacity := by
      rw [h.written, Nat.add_mod_mod]
    have hlt : j % r.capacity < min size r.capacity := by
      have hmod := Nat.mod_lt j hcap
      have hle := Nat.mod_le j r.capacity
      omega
    rw [List.getElem?_replicate, if_pos hj, hround, hcellAt _ (Nat.mod_lt _ hcap),
      if_pos ((inRegion_iff (Nat.mod_lt _ hcap) _).mpr hlt)]

end Catplay.Analysis.Ring

/-!
## The readable slice

Apart from the timeline, what a reader of the slice relies on: the halves of the storage are
alike and the heads are in range (`Sized`). Writing and reading keep that; when nothing was lost
the slice has the cells of the positions from the read head to the write head
(`readableSlice_spec`).
-/

namespace Catplay.Analysis.Ring

open Catplay.Model.Ring Catplay.Model.Ring.RingBuffer

variable {T : Type}

/-- The capacity is a power of two, and the heads are in range. -/
structure Sized (ring : RingBuffer T) (capacity : Nat) : Prop where
  same : ring.capacity = capacity
  pow : ∃ k, capacity = 2 ^ k
  mask : ring.mask = capacity - 1
  mirrored : Mirrored ring.ring capacity
  written : ring.writeHead < 2 ^ 64
  read : ring.readHead < 2 ^ 64

/-- Reading moves the read head only. -/
structure SameSamples (ring ring' : RingBuffer T) : Prop where
  storage : ring'.ring = ring.ring
  capacity : ring'.capacity = ring.capacity
  mask : ring'.mask = ring.mask
  writeHead : ring'.writeHead = ring.writeHead
  gaps : ring'.gaps = ring.gaps

theorem SameSamples.refl (ring : RingBuffer T) : SameSamples ring ring := ⟨rfl, rfl, rfl, rfl, rfl⟩

variable {ring : RingBuffer T} {capacity : Nat}

theorem SameSamples.trans {ring' ring'' : RingBuffer T} (h : SameSamples ring ring')
    (h' : SameSamples ring' ring'') : SameSamples ring ring'' :=
  ⟨h'.storage.trans h.storage, h'.capacity.trans h.capacity, h'.mask.trans h.mask,
    h'.writeHead.trans h.writeHead, h'.gaps.trans h.gaps⟩

theorem readCommit_same (ring : RingBuffer T) (count : Nat) :
    SameSamples ring (ring.readCommit count) := by
  unfold RingBuffer.readCommit
  split <;> exact ⟨rfl, rfl, rfl, rfl, rfl⟩

theorem readCommit_readHead (hread : ring.readHead < 2 ^ 64) (count : Nat) :
    (ring.readCommit count).readHead = (ring.readHead + count) % 2 ^ 64 := by
  unfold RingBuffer.readCommit
  by_cases hzero : count = 0
  · rw [if_pos hzero, hzero, Nat.add_zero, Nat.mod_eq_of_lt hread]
  · rw [if_neg hzero]
    rfl

theorem Sized.readCommit (h : Sized ring capacity)
    (count : Nat) : Sized (ring.readCommit count) capacity := by
  have hsame := readCommit_same ring count
  refine ⟨hsame.capacity.trans h.same, h.pow, hsame.mask.trans h.mask, ?_, ?_, ?_⟩
  · rw [hsame.storage]
    exact h.mirrored
  · rw [hsame.writeHead]
    exact h.written
  · rw [readCommit_readHead h.read]
    exact Nat.mod_lt _ (by decide)

/-- Writing keeps the shape of the ring. -/
theorem Sized.write (h : Sized ring capacity) (input : List T) :
    Sized (ring.write input).1 capacity ∧ (ring.write input).1.readHead = ring.readHead := by
  obtain ⟨k, hpow⟩ := h.pow
  have hpos : 0 < capacity := by
    rw [hpow]
    exact Nat.two_pow_pos k
  have hindex : ring.logicalToRingIndex ring.writeHead = ring.writeHead % capacity := by
    unfold RingBuffer.logicalToRingIndex
    rw [h.mask, hpow, Nat.and_two_pow_sub_one_eq_mod]
  unfold RingBuffer.write
  dsimp only
  by_cases hempty : input.length = 0
  · rw [if_pos hempty]
    exact ⟨h, rfl⟩
  · rw [if_neg hempty, h.same]
    have hlength : (input.drop (input.length - min input.length capacity)).length =
        min input.length capacity := by
      rw [List.length_drop]
      omega
    obtain ⟨hmirrored, -⟩ := mirrored_store h.mirrored (Nat.mod_lt ring.writeHead hpos)
      (show (input.drop (input.length - min input.length capacity)).length ≤ capacity by omega)
    refine ⟨⟨h.same, h.pow, h.mask, ?_, Nat.mod_lt _ (by decide), h.read⟩, rfl⟩
    unfold store at hmirrored
    rw [hlength, ← hindex] at hmirrored
    unfold RingBuffer.writeCommitAdvance RingBuffer.writeInto
    dsimp only
    rw [if_pos (show min input.length capacity > 0 by omega), h.same]
    exact hmirrored

/-- A new ring. -/
theorem sized_new [Inhabited T] (mapped : Bool) (size : Nat) :
    Sized (newUnsplit mapped size : RingBuffer T) (newUnsplit mapped size : RingBuffer T).capacity := by
  obtain ⟨k, hk⟩ := Nat.isPowerOfTwo_nextPowerOfTwo size
  have hpos := Nat.two_pow_pos k
  refine ⟨rfl, ⟨k, ?_⟩, rfl, mirrored_new _ _, Nat.two_pow_pos 64, Nat.two_pow_pos 64⟩
  show max size.nextPowerOfTwo 1 = 2 ^ k
  omega

open private Nat.nextPowerOfTwo.go from Init.Data.Nat.Power2.Basic in
/-- The loop doubles until it has the number. -/
theorem le_nextPowerOfTwo_go (n power : Nat) (h : power > 0) :
    n ≤ Nat.nextPowerOfTwo.go n power h := by
  unfold Nat.nextPowerOfTwo.go
  split
  · exact le_nextPowerOfTwo_go n (power * 2) (Nat.mul_pos h (by decide))
  · omega
  termination_by n - power

theorem le_nextPowerOfTwo (n : Nat) : n ≤ n.nextPowerOfTwo :=
  le_nextPowerOfTwo_go n 1 (by decide)

/-- A ring has room for what it is asked for. -/
theorem le_spsc_capacity [Inhabited T] (mapped : Bool) (elemsPerPage size : Nat) :
    size ≤ (spsc mapped elemsPerPage size : RingBuffer T).capacity := by
  have hsize := le_nextPowerOfTwo (max size 1)
  have hmax := le_nextPowerOfTwo (max (max size 1).nextPowerOfTwo elemsPerPage)
  show size ≤ max (max (max size 1).nextPowerOfTwo elemsPerPage).nextPowerOfTwo 1
  omega

/-- **The readable slice**, when nothing was lost: what stands at the positions from the read head
on. -/
theorem readableSlice_spec (h : Sized ring capacity) (hkept : ring.readableSlice.1 = 0) :
    ring.writeHead ≤ ring.readHead + capacity ∧
      ring.readableSlice.2.length = ring.writeHead - ring.readHead ∧
      ∀ i, i < ring.writeHead - ring.readHead →
        ring.readableSlice.2[i]? = ring.ring.asSlice[(ring.readHead + i) % capacity]? := by
  obtain ⟨k, hpow⟩ := h.pow
  have hpos : 0 < capacity := by
    rw [hpow]
    exact Nat.two_pow_pos k
  have hlost : ring.readableSlice.1 = ring.writeHead - capacity - ring.readHead := by
    unfold RingBuffer.readableSlice
    dsimp only
    rw [h.same]
    split <;> rfl
  have hwindow : ring.writeHead ≤ ring.readHead + capacity := by omega
  have hindex : ring.logicalToRingIndex ring.readHead = ring.readHead % capacity := by
    unfold RingBuffer.logicalToRingIndex
    rw [h.mask, hpow, Nat.and_two_pow_sub_one_eq_mod]
  have hslice : ring.readableSlice.2 =
      (ring.ring.asSlice.drop (ring.readHead % capacity)).take (ring.writeHead - ring.readHead) := by
    unfold RingBuffer.readableSlice
    dsimp only
    rw [h.same, ← hlost, hkept, Nat.add_zero, hindex]
    by_cases hnone : ring.writeHead - ring.readHead = 0
    · rw [if_pos hnone, hnone, List.take_zero]
    · rw [if_neg hnone, Nat.min_eq_left (by omega)]
  have hhead := Nat.mod_lt ring.readHead hpos
  have hstorage := h.mirrored.length
  refine ⟨hwindow, ?_, fun i hi => ?_⟩
  · rw [hslice, List.length_take, List.length_drop]
    omega
  · have hround : i < capacity := by omega
    rw [hslice, List.getElem?_take, if_pos hi, List.getElem?_drop,
      mod_add_eq ring.readHead capacity i hround]
    by_cases hlow : ring.readHead % capacity + i < capacity
    · rw [if_pos hlow]
    · have hmirror := h.mirrored.mirror (ring.readHead % capacity + i - capacity) (by omega)
      rw [if_neg hlow, ← hmirror]
      congr 1
      omega

end Catplay.Analysis.Ring
