import Catplay.Analysis.Ring.Reading

/-!
# Rings that differ in their storage

All that the public interface of a ring does is a sequence of calls (`RingCall`), writes through
the slice and commits among them. Two rings with the same heads and gaps (`Twins`) yield segments
of the same lengths, and the same segments where their storages agree at the positions that are
still to be read (`Twins.takeSegments`, `Twins.read`, `Twins.readableSlice`).
-/

set_option autoImplicit false

namespace Catplay.Analysis.Ring

open Catplay.Model.Ring Catplay.Model.Ring.RingBuffer

variable {T : Type}

/-! ## Calls -/

/-- The calls of the producer and of the consumer. -/
inductive RingCall (T : Type)
  | op (op : Op T)
  /-- A write into `writable_slice`. -/
  | writeSlice (src : List T)
  | writeCommit (written : Nat)
  | readCommit (count : Nat)
  deriving DecidableEq, Repr

/-- The slice has `capacity` elements, and no more than that are committed. -/
def performCall [Inhabited T] (r : RingBuffer T) : RingCall T → Option (RingBuffer T)
  | .op op => some (perform r op)
  | .writeSlice src => if src.length ≤ r.capacity then some (r.writeInto src) else none
  | .writeCommit written => if written ≤ r.capacity then some (r.writeCommit written) else none
  | .readCommit count => some (r.readCommit count)

variable {r r' : RingBuffer T}

/-- What a frame says is not about the storage and the heads. -/
theorem Framed.of_gaps (h : Framed r) (hcapacity : r'.capacity = r.capacity)
    (hmask : r'.mask = r.mask) (hsound : Sound r'.gaps) (hgaps : r'.gaps.capacity = r.gaps.capacity) :
    Framed r' := by
  refine ⟨hcapacity ▸ h.pow, ?_, hsound, ?_⟩
  · rw [hmask, hcapacity, h.mask]
  · rw [hgaps, hcapacity, h.gapsCapacity]

theorem Framed.writeCommitAdvance (h : Framed r) (writtenPhys advance : Nat) :
    Framed (r.writeCommitAdvance writtenPhys advance) := by
  refine h.of_gaps rfl rfl ((h.sound.unmarkRegion _ _).unmarkRegion _ _) ?_
  show ((r.gaps.unmarkRegion _ _).unmarkRegion _ _).capacity = _
  rw [capacity_unmarkRegion, capacity_unmarkRegion]

theorem Framed.markRegions (h : Framed r) (start firstLen secondLen : Nat) :
    Framed { r with gaps := (r.gaps.markRegion start firstLen).markRegion 0 secondLen } := by
  refine h.of_gaps rfl rfl ((h.sound.markRegion _ _).markRegion _ _) ?_
  dsimp only
  rw [capacity_markRegion, capacity_markRegion]

theorem Framed.advanceTimeline (h : Framed r) (size : Nat) :
    Framed (r.advanceTimeline size) := by
  unfold RingBuffer.advanceTimeline
  dsimp only
  split
  · exact h
  · exact (h.markRegions _ _ _).writeCommitAdvance _ _

theorem Framed.readCommit (h : Framed r) (count : Nat) :
    Framed (r.readCommit count) := by
  have hsame := readCommit_same r count
  exact h.of_gaps hsame.capacity hsame.mask (hsame.gaps.symm ▸ h.sound) (by rw [hsame.gaps])

theorem framed_new [Inhabited T] (mapped : Bool) (size : Nat) :
    Framed (newUnsplit mapped size : RingBuffer T) := (refines_new mapped size).framed

/-! ## What a reader sees of the storage -/

/-- The two storages show the same at a ring position, in both halves. -/
def AgreeAt (cap : Nat) (storage storage' : RingStorage T) (i : Nat) : Prop :=
  storage'.asSlice[i]? = storage.asSlice[i]? ∧
    storage'.asSlice[i + cap]? = storage.asSlice[i + cap]?

/-- The positions that are not read yet and still in the window. -/
def Unread (r : RingBuffer T) (p : Nat) : Prop :=
  r.readHead ≤ p ∧ p < r.writeHead ∧ r.writeHead ≤ p + r.capacity

/-- Two rings that differ in their storage only. -/
structure Twins (r r' : RingBuffer T) : Prop where
  rest : r' = { r with ring := r'.ring }
  framed : Framed r
  length : r.ring.asSlice.length = 2 * r.capacity
  length' : r'.ring.asSlice.length = 2 * r.capacity

theorem Twins.capacity (h : Twins r r') : r'.capacity = r.capacity := by
  rw [h.rest]

theorem Twins.searchGapAbs (h : Twins r r') (start len : Nat) :
    r'.searchGapAbs start len = r.searchGapAbs start len := by
  rw [h.rest]
  rfl

theorem Twins.ringIndex (h : Twins r r') (p : Nat) :
    r'.logicalToRingIndex p = p % r.capacity := by
  rw [h.rest]
  exact h.framed.ringIndex p

/-- A contiguous slice over positions at which the storages agree. -/
theorem slice_eq {cap : Nat} {storage storage' : RingStorage T} (hcap : 0 < cap) {cursor n : Nat}
    (hn : n ≤ cap)
    (hcells : ∀ p, cursor ≤ p → p < cursor + n → AgreeAt cap storage storage' (p % cap)) :
    (storage'.asSlice.drop (cursor % cap)).take n = (storage.asSlice.drop (cursor % cap)).take n := by
  apply List.ext_getElem?
  intro j
  rw [List.getElem?_take, List.getElem?_take]
  by_cases hj : j < n
  · obtain ⟨hlow, hhigh⟩ := hcells (cursor + j) (by omega) (by omega)
    have hcursor := Nat.mod_lt cursor hcap
    rw [mod_add_eq cursor cap j (by omega)] at hlow hhigh
    rw [if_pos hj, if_pos hj, List.getElem?_drop, List.getElem?_drop]
    by_cases hsum : cursor % cap + j < cap
    · rw [if_pos hsum] at hlow
      exact hlow
    · rw [if_neg hsum, Nat.sub_add_cancel (by omega)] at hhigh
      exact hhigh
  · rw [if_neg hj, if_neg hj]

/-- The segments are as long as each other, whatever the cells hold. -/
theorem Twins.segmentAt_len (h : Twins r r') (cursor readable : Nat) :
    (r'.segmentAt cursor readable).len = (r.segmentAt cursor readable).len := by
  have hslice : ∀ n, ((r'.ring.asSlice.drop (cursor % r.capacity)).take n).length =
      ((r.ring.asSlice.drop (cursor % r.capacity)).take n).length := by
    intro n
    rw [List.length_take, List.length_take, List.length_drop, List.length_drop, h.length,
      h.length']
  unfold RingBuffer.segmentAt
  rw [h.searchGapAbs, h.ringIndex, h.framed.ringIndex]
  cases r.searchGapAbs cursor readable with
  | none => exact hslice readable
  | some found =>
    dsimp only
    by_cases hhere : found.1 = cursor
    · rw [if_pos hhere, if_pos hhere]
    · rw [if_neg hhere, if_neg hhere]
      exact hslice _

theorem Twins.segmentAt_eq (h : Twins r r') {cursor readable : Nat}
    (hreadable : readable ≤ r.capacity)
    (hcells : ∀ p, cursor ≤ p → p < cursor + readable →
      AgreeAt r.capacity r.ring r'.ring (p % r.capacity)) :
    r'.segmentAt cursor readable = r.segmentAt cursor readable := by
  obtain ⟨-, hsome⟩ := searchGapAbs_spec h.framed cursor hreadable
  have hpos := h.framed.capacity_pos
  unfold RingBuffer.segmentAt
  rw [h.searchGapAbs, h.ringIndex, h.framed.ringIndex]
  cases hsearch : r.searchGapAbs cursor readable with
  | none =>
    dsimp only
    rw [slice_eq hpos hreadable hcells]
  | some found =>
    obtain ⟨gap, len⟩ := found
    obtain ⟨hle, hlen, hfits, -⟩ := hsome gap len hsearch
    dsimp only
    rw [slice_eq hpos (show gap - cursor ≤ r.capacity by omega)
      (fun p hp hlt => hcells p hp (by omega))]

/-- **One call of `next`** moves both iterators alike. -/
theorem Twins.next_iterator (h : Twins r r') (it : RingSegments) :
    (r'.next it).map Prod.snd = (r.next it).map Prod.snd := by
  have hlen := h.segmentAt_len it.cursor it.readable
  unfold RingBuffer.next
  dsimp only
  rw [hlen]
  by_cases hover : it.overflow > 0
  · rw [if_pos hover, if_pos hover]
  · rw [if_neg hover, if_neg hover]
    by_cases hread : it.readable > 0
    · rw [if_pos hread, if_pos hread]
      rfl
    · rw [if_neg hread, if_neg hread]

theorem Twins.visit_iterator (h : Twins r r') (visits : Nat)
    (it : RingSegments) : (r'.visit visits it).2 = (r.visit visits it).2 := by
  induction visits generalizing it with
  | zero => rfl
  | succ visits ih =>
    have hnext := h.next_iterator it
    unfold RingBuffer.visit
    cases hr : r.next it with
    | none =>
      rw [hr, Option.map_none, Option.map_eq_none_iff] at hnext
      rw [hnext]
    | some found =>
      rw [hr, Option.map_some, Option.map_eq_some_iff] at hnext
      obtain ⟨found', hr', hsame⟩ := hnext
      rw [hr']
      dsimp only
      rw [hsame]
      exact ih found.2

/-- **The same segments**, where the storages agree at the positions still to be yielded. -/
theorem Twins.visit_eq (h : Twins r r') (visits : Nat) {it : RingSegments}
    (hreadable : it.readable ≤ r.capacity)
    (hcells : ∀ p, it.cursor ≤ p → p < it.cursor + it.readable →
      AgreeAt r.capacity r.ring r'.ring (p % r.capacity)) :
    r'.visit visits it = r.visit visits it := by
  induction visits generalizing it with
  | zero => rfl
  | succ visits ih =>
    have hsegment := h.segmentAt_eq hreadable hcells
    have hnext : r'.next it = r.next it := by
      unfold RingBuffer.next
      dsimp only
      rw [hsegment]
    unfold RingBuffer.visit
    rw [hnext]
    cases hr : r.next it with
    | none => rfl
    | some found =>
      have hrest : found.2.readable ≤ r.capacity ∧
          ∀ p, found.2.cursor ≤ p → p < found.2.cursor + found.2.readable →
            AgreeAt r.capacity r.ring r'.ring (p % r.capacity) := by
        unfold RingBuffer.next at hr
        dsimp only at hr
        by_cases hover : it.overflow > 0
        · rw [if_pos hover] at hr
          obtain rfl := Option.some.inj hr
          exact ⟨hreadable, hcells⟩
        · rw [if_neg hover] at hr
          by_cases hread : it.readable > 0
          · rw [if_pos hread] at hr
            obtain rfl := Option.some.inj hr
            refine ⟨?_, fun p hp hlt => ?_⟩
            · dsimp only
              omega
            · dsimp only at hp hlt
              exact hcells p (by omega) (by omega)
          · rw [if_neg hread] at hr
            split at hr
            · obtain rfl := Option.some.inj hr
              exact ⟨hreadable, hcells⟩
            · cases hr
      dsimp only
      rw [ih hrest.1 hrest.2]

theorem Twins.iterSegments (h : Twins r r') (requested : Nat) (emitUnderflow : Bool) :
    r'.iterSegments requested emitUnderflow = r.iterSegments requested emitUnderflow := by
  rw [h.rest]
  rfl

/-- The positions that an iterator may yield as data. -/
theorem unread_of_iterSegments {requested p : Nat} {emitUnderflow : Bool}
    (hp : (r.iterSegments requested emitUnderflow).cursor ≤ p)
    (hlt : p < (r.iterSegments requested emitUnderflow).cursor +
      (r.iterSegments requested emitUnderflow).readable) : Unread r p := by
  unfold RingBuffer.iterSegments at hp hlt
  unfold Unread
  dsimp only at hp hlt
  omega

theorem Twins.readCommit (h : Twins r r') (count : Nat) :
    Twins (r.readCommit count) (r'.readCommit count) := by
  unfold RingBuffer.readCommit
  split
  · exact h
  · refine ⟨?_, ⟨h.framed.pow, h.framed.mask, h.framed.sound, h.framed.gapsCapacity⟩, h.length,
      h.length'⟩
    rw [h.rest]

/-- The storages agree where a reader may look. -/
def AgreeUnread (r r' : RingBuffer T) : Prop :=
  ∀ p, Unread r p → AgreeAt r.capacity r.ring r'.ring (p % r.capacity)

/-- **Readers** take the same from rings that agree where they look. -/
theorem Twins.takeSegments (h : Twins r r') (requested : Nat)
    (emitUnderflow : Bool) (visits : Nat) :
    Twins (r.takeSegments requested emitUnderflow visits).1
        (r'.takeSegments requested emitUnderflow visits).1 ∧
      (AgreeUnread r r' → (r'.takeSegments requested emitUnderflow visits).2 =
        (r.takeSegments requested emitUnderflow visits).2) := by
  have hiterator := h.visit_iterator visits (r.iterSegments requested emitUnderflow)
  unfold RingBuffer.takeSegments
  dsimp only
  rw [h.iterSegments, hiterator]
  constructor
  · exact h.readCommit _
  · intro hcells
    have hreadable : (r.iterSegments requested emitUnderflow).readable ≤ r.capacity := by
      unfold RingBuffer.iterSegments
      dsimp only
      omega
    have hsame := h.visit_eq visits hreadable
      (fun p hp hlt => hcells p (unread_of_iterSegments hp hlt))
    rw [hsame]

theorem Twins.read (h : Twins r r') (out : List T) :
    Twins (r.read out).1 (r'.read out).1 ∧
      (AgreeUnread r r' → (r'.read out).2 = (r.read out).2) := by
  obtain ⟨htwins, hsame⟩ := h.takeSegments out.length true (out.length + 1)
  unfold RingBuffer.read RingBuffer.readSegments
  dsimp only
  by_cases hempty : out.length = 0
  · rw [if_pos hempty, if_pos hempty]
    exact ⟨h, fun _ => rfl⟩
  · rw [if_neg hempty, if_neg hempty]
    constructor
    · split <;> split <;> exact htwins
    · intro hcells
      rw [hsame hcells]
      split <;> rfl

theorem Twins.readableSlice (h : Twins r r') (hcells : AgreeUnread r r') :
    r'.readableSlice = r.readableSlice := by
  have hreadHead : r'.readHead = r.readHead := by rw [h.rest]
  have hwriteHead : r'.writeHead = r.writeHead := by rw [h.rest]
  unfold RingBuffer.readableSlice
  dsimp only
  rw [hreadHead, hwriteHead, h.capacity, h.ringIndex, h.framed.ringIndex]
  by_cases hnone : r.writeHead - (r.readHead + (r.writeHead - r.capacity - r.readHead)) = 0
  · rw [if_pos hnone, if_pos hnone]
  · rw [if_neg hnone, if_neg hnone, slice_eq h.framed.capacity_pos (Nat.min_le_right _ _)]
    intro p hp hlt
    apply hcells
    unfold Unread
    omega

end Catplay.Analysis.Ring
