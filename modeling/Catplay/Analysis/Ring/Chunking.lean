import Catplay.Analysis.Ring.Samples
import Catplay.Analysis.Ring.Twins

/-!
# Reads in parts

A read in two parts yields the positions that one read yields, cut into other segments
(`mergeSegments`). Every ring has a timeline of its own (`view`), which the segments are read off;
the two reads part only where the read head wraps between them and comes to lie before the write
head (`chunked_iff`): the read at once has underflow there and the second part sees the timeline
from its start (`wrapped_head_replays`).
-/

set_option autoImplicit false

namespace Catplay.Analysis.Ring

open Catplay.Library.Run Catplay.Model.Ring Catplay.Model.Ring.RingBuffer

variable {T : Type}

/-! ## Merging segments -/

/-- Two segments of one kind. -/
def joined : RingSegment T → RingSegment T → Option (RingSegment T)
  | .data samples, .data more => some (.data (samples ++ more))
  | .gap count, .gap more => some (.gap (count + more))
  | .overflow count, .overflow more => some (.overflow (count + more))
  | .underflow count, .underflow more => some (.underflow (count + more))
  | _, _ => none

/-- A segment before others, joined to the first of them when that is of its kind. -/
def attach (segment : RingSegment T) : List (RingSegment T) → List (RingSegment T)
  | [] => [segment]
  | next :: more =>
    match joined segment next with
    | some both => both :: more
    | none => segment :: next :: more

/-- Adjacent segments of the same kind, merged. -/
def mergeSegments (segments : List (RingSegment T)) : List (RingSegment T) :=
  segments.foldr attach []

/-- The segment of one position. -/
def segmentOf : Slot T → RingSegment T
  | .data sample => .data [sample]
  | .gap => .gap 1
  | .overflow => .overflow 1
  | .underflow => .underflow 1

variable {a b c : RingSegment T} {r : RingBuffer T}

theorem slotsOf_joined (h : joined a b = some c) :
    slotsOf c = slotsOf a ++ slotsOf b := by
  cases a <;> cases b <;> first
    | (obtain rfl := Option.some.inj h
       simp [slotsOf, List.replicate_append_replicate])
    | cases h

theorem attach_of_joined (h : joined a b = some c)
    (more : List (RingSegment T)) : attach a (b :: more) = c :: more := by
  unfold attach
  dsimp only
  rw [h]

theorem attach_of_not_joined (h : joined a b = none)
    (more : List (RingSegment T)) : attach a (b :: more) = a :: b :: more := by
  unfold attach
  dsimp only
  rw [h]

theorem slotsOf_attach (segment : RingSegment T) (segments : List (RingSegment T)) :
    (attach segment segments).flatMap slotsOf = slotsOf segment ++ segments.flatMap slotsOf := by
  cases segments with
  | nil => rfl
  | cons next more =>
    cases hjoined : joined segment next with
    | none =>
      rw [attach_of_not_joined hjoined]
      rfl
    | some both =>
      rw [attach_of_joined hjoined, List.flatMap_cons, List.flatMap_cons, slotsOf_joined hjoined,
        List.append_assoc]

/-- Merging keeps what the segments say. -/
theorem slotsOf_mergeSegments (segments : List (RingSegment T)) :
    (mergeSegments segments).flatMap slotsOf = segments.flatMap slotsOf := by
  induction segments with
  | nil => rfl
  | cons segment segments ih =>
    show (attach segment (mergeSegments segments)).flatMap slotsOf = _
    rw [slotsOf_attach, ih, List.flatMap_cons]

/-- A longer segment is attached as the first of its positions and the rest of it. -/
theorem attach_attach (h : joined a b = some c)
    (segments : List (RingSegment T)) : attach a (attach b segments) = attach c segments := by
  cases segments with
  | nil => exact attach_of_joined h []
  | cons next more =>
    cases a <;> cases b <;> first
      | (obtain rfl := Option.some.inj h
         cases next <;> simp [attach, joined, Nat.add_assoc])
      | cases h

/-- A segment is attached position by position. -/
theorem foldr_attach_slotsOf {segment : RingSegment T} (hpos : 0 < segment.len)
    (segments : List (RingSegment T)) :
    (slotsOf segment).foldr (fun slot => attach (segmentOf slot)) segments =
      attach segment segments := by
  have hcount : ∀ (make : Nat → RingSegment T) (slot : Slot T), segmentOf slot = make 1 →
      (∀ count, joined (make 1) (make count) = some (make (1 + count))) → ∀ count, 0 < count →
        (List.replicate count slot).foldr (fun slot => attach (segmentOf slot)) segments =
          attach (make count) segments := by
    intro make slot hone hjoin count hcount
    induction count with
    | zero => exact absurd hcount (Nat.lt_irrefl 0)
    | succ count ih =>
      rw [List.replicate_succ, List.foldr_cons, hone]
      by_cases hzero : count = 0
      · subst hzero
        rfl
      · rw [ih (by omega), attach_attach (hjoin count), Nat.add_comm]
  cases segment with
  | gap count => exact hcount .gap .gap rfl (fun _ => rfl) count hpos
  | overflow count => exact hcount .overflow .overflow rfl (fun _ => rfl) count hpos
  | underflow count => exact hcount .underflow .underflow rfl (fun _ => rfl) count hpos
  | data samples =>
    show (samples.map Slot.data).foldr (fun slot => attach (segmentOf slot)) segments = _
    induction samples with
    | nil => exact absurd hpos (Nat.lt_irrefl 0)
    | cons sample samples ih =>
      rw [List.map_cons, List.foldr_cons]
      cases samples with
      | nil => rfl
      | cons next more =>
        rw [ih (Nat.succ_pos _)]
        exact attach_attach rfl segments

/-- **Merged segments are determined by what they say.** -/
theorem mergeSegments_eq {segments : List (RingSegment T)} (hpos : ∀ s ∈ segments, 0 < s.len) :
    mergeSegments segments =
      (segments.flatMap slotsOf).foldr (fun slot => attach (segmentOf slot)) [] := by
  induction segments with
  | nil => rfl
  | cons segment segments ih =>
    have hrest := ih fun s hs => hpos s (List.mem_cons_of_mem segment hs)
    show attach segment (mergeSegments segments) = _
    rw [List.flatMap_cons, List.foldr_append, ← hrest,
      foldr_attach_slotsOf (hpos segment List.mem_cons_self)]

theorem mergeSegments_eq_iff {segments others : List (RingSegment T)}
    (hpos : ∀ s ∈ segments, 0 < s.len) (hpos' : ∀ s ∈ others, 0 < s.len) :
    mergeSegments segments = mergeSegments others ↔
      segments.flatMap slotsOf = others.flatMap slotsOf := by
  constructor
  · intro h
    rw [← slotsOf_mergeSegments, h, slotsOf_mergeSegments]
  · intro h
    rw [mergeSegments_eq hpos, mergeSegments_eq hpos', h]

/-! ## The rings of a run -/

/-- A ring as every call leaves it. -/
structure Shaped (r : RingBuffer T) : Prop where
  framed : Framed r
  length : r.ring.asSlice.length = 2 * r.capacity
  written : r.writeHead < 2 ^ 64
  read : r.readHead < 2 ^ 64

theorem fetchAdd_lt (head count : Nat) : fetchAdd head count < 2 ^ 64 :=
  Nat.mod_lt _ (Nat.two_pow_pos 64)

theorem Shaped.readCommit (h : Shaped r) (count : Nat) :
    Shaped (r.readCommit count) := by
  have hsame := readCommit_same r count
  refine ⟨h.framed.readCommit count, ?_, ?_, ?_⟩
  · rw [hsame.storage, hsame.capacity]
    exact h.length
  · rw [hsame.writeHead]
    exact h.written
  · rw [readCommit_readHead h.read]
    exact Nat.mod_lt _ (Nat.two_pow_pos 64)

theorem Shaped.writeInto (h : Shaped r) {src : List T}
    (hsrc : src.length ≤ r.capacity) : Shaped (r.writeInto src) := by
  refine ⟨h.framed.of_gaps rfl rfl h.framed.sound rfl, ?_, h.written, h.read⟩
  show (r.ring.writeSlice (r.logicalToRingIndex r.writeHead) src).asSlice.length = 2 * r.capacity
  rw [h.framed.ringIndex]
  exact (writeSlice_cells h.length (Nat.mod_lt _ h.framed.capacity_pos) hsrc).1

theorem Shaped.writeCommitAdvance (h : Shaped r) {writtenPhys : Nat}
    (hwritten : writtenPhys ≤ r.capacity) (advance : Nat) :
    Shaped (r.writeCommitAdvance writtenPhys advance) := by
  refine ⟨h.framed.writeCommitAdvance _ _, ?_, fetchAdd_lt _ _, h.read⟩
  unfold RingBuffer.writeCommitAdvance
  dsimp only
  rw [h.framed.ringIndex]
  split
  · exact (syncMirrorRange_cells h.length (Nat.mod_lt _ h.framed.capacity_pos) hwritten).1
  · exact h.length

theorem Shaped.perform [Inhabited T] (h : Shaped r) (op : Op T) :
    Shaped (perform r op) := by
  cases op with
  | write input =>
    show Shaped (r.write input).1
    unfold RingBuffer.write
    dsimp only
    split
    · exact h
    · have hsrc : (input.drop (input.length - min input.length r.capacity)).length ≤
          r.capacity := by
        rw [List.length_drop]
        omega
      exact (h.writeInto hsrc).writeCommitAdvance (Nat.min_le_right _ _) _
  | writeDefault count =>
    show Shaped (r.writeDefault count)
    unfold RingBuffer.writeDefault
    split
    · exact h
    · have hsrc : (List.replicate (min count r.capacity) (default : T)).length ≤ r.capacity := by
        rw [List.length_replicate]
        exact Nat.min_le_right _ _
      exact (h.writeInto hsrc).writeCommitAdvance (Nat.min_le_right _ _) _
  | advanceTimeline size =>
    show Shaped (r.advanceTimeline size)
    unfold RingBuffer.advanceTimeline
    dsimp only
    split
    · exact h
    · exact Shaped.writeCommitAdvance ⟨h.framed.markRegions _ _ _, h.length, h.written, h.read⟩
        (Nat.zero_le _) size
  | takeSegments requested emitUnderflow visits => exact h.readCommit _
  | read out =>
    show Shaped (r.read out).1
    unfold RingBuffer.read
    dsimp only
    split
    · exact h
    · split <;> exact h.readCommit _

theorem shaped_step [Inhabited T] {r' : RingBuffer T} {call : RingCall T} (h : Shaped r)
    (hstep : performCall r call = some r') : Shaped r' := by
  cases call with
  | op op =>
    obtain rfl := Option.some.inj hstep
    exact h.perform op
  | writeSlice src =>
    unfold performCall at hstep
    dsimp only at hstep
    split at hstep
    · next hfits =>
      obtain rfl := Option.some.inj hstep
      exact h.writeInto hfits
    · cases hstep
  | writeCommit written =>
    unfold performCall at hstep
    dsimp only at hstep
    split at hstep
    · next hfits =>
      obtain rfl := Option.some.inj hstep
      exact h.writeCommitAdvance hfits written
    · cases hstep
  | readCommit count =>
    obtain rfl := Option.some.inj hstep
    exact h.readCommit count

theorem shaped_new [Inhabited T] (mapped : Bool) (size : Nat) :
    Shaped (newUnsplit mapped size : RingBuffer T) :=
  ⟨framed_new mapped size, (mirrored_new _ _).length, Nat.two_pow_pos 64, Nat.two_pow_pos 64⟩

theorem shaped_run [Inhabited T] {mapped : Bool} {size : Nat} {calls : List (RingCall T)}
    (hrun : run performCall (newUnsplit mapped size) calls = some r) : Shaped r :=
  run_invariant Shaped (fun _ _ _ h hstep => shaped_step h hstep) (shaped_new mapped size) hrun

/-! ## The timeline of a ring -/

/-- What the ring itself shows at the positions up to its write head. -/
def view (r : RingBuffer T) : Timeline T where
  cells := (List.range r.writeHead).map fun p => cellAt r (p % r.capacity)
  read := r.readHead

theorem refines_view (h : Framed r) (hmirrored : Mirrored r.ring r.capacity) :
    Refines r (view r) := by
  refine ⟨h.pow, h.mask, hmirrored, h.sound, h.gapsCapacity, ?_, rfl, fun p hp _ => ?_⟩
  · show r.writeHead = ((List.range r.writeHead).map _).length
    rw [List.length_map, List.length_range]
  · have hlt : p < r.writeHead := by
      have hlength : p < ((List.range r.writeHead).map fun p => cellAt r (p % r.capacity)).length := hp
      rw [List.length_map, List.length_range] at hlength
      exact hlength
    show ((List.range r.writeHead).map fun p => cellAt r (p % r.capacity))[p]? = _
    rw [List.getElem?_map, List.getElem?_range hlt]
    rfl

/-- The same ring over a mapped storage with the lower cells of it. -/
def overPages (r : RingBuffer T) : RingBuffer T :=
  { r with ring := .mirroredMmap (r.ring.asSlice.take r.capacity) }

theorem Shaped.pages_cells (h : Shaped r) {i : Nat} (hi : i < r.capacity) :
    (overPages r).ring.asSlice[i]? = r.ring.asSlice[i]? ∧
      (overPages r).ring.asSlice[i + r.capacity]? = r.ring.asSlice[i]? := by
  have hlength := h.length
  have hpages : (r.ring.asSlice.take r.capacity).length = r.capacity := by
    rw [List.length_take]
    omega
  obtain ⟨hlow, hhigh⟩ := mapped_cells hpages hi
  rw [List.getElem?_take, if_pos hi] at hlow hhigh
  exact ⟨hlow, hhigh⟩

theorem Shaped.overPages_twins (h : Shaped r) : Twins r (overPages r) := by
  have hlength := h.length
  refine ⟨rfl, h.framed, hlength, ?_⟩
  show (r.ring.asSlice.take r.capacity ++ r.ring.asSlice.take r.capacity).length = _
  rw [List.length_append, List.length_take]
  omega

theorem Shaped.overPages_refines (h : Shaped r) :
    Refines (overPages r) (view r) := by
  have hview : view (overPages r) = view r := by
    unfold view
    congr 1
    apply List.map_congr_left
    intro p _
    obtain ⟨hlow, -⟩ := h.pages_cells (Nat.mod_lt p h.framed.capacity_pos)
    show (if bit r.gaps (p % r.capacity) then none
      else (overPages r).ring.asSlice[p % r.capacity]?) = cellAt r (p % r.capacity)
    rw [hlow]
    rfl
  rw [← hview]
  refine refines_view (h.framed.of_gaps rfl rfl h.framed.sound rfl) ⟨h.overPages_twins.length', ?_⟩
  intro i hi
  obtain ⟨hlow, hhigh⟩ := h.pages_cells hi
  exact hhigh.trans hlow.symm

/-! ## One read -/

/-- Both halves show the same at the positions that a reader may look at. -/
def UnreadMirrored (r : RingBuffer T) : Prop :=
  ∀ p, Unread r p →
    r.ring.asSlice[p % r.capacity + r.capacity]? = r.ring.asSlice[p % r.capacity]?

/-- How many positions a complete read yields. -/
def span (r : RingBuffer T) (requested : Nat) (emitUnderflow : Bool) : Nat :=
  if emitUnderflow then requested else min requested (r.writeHead - r.readHead)

theorem isUnderflow_slotAt {t : Timeline T} {cap p : Nat} (hp : t.cells.length ≤ p) :
    (t.slotAt cap p).isUnderflow = true := by
  unfold Timeline.slotAt
  rw [if_neg (by omega), List.getElem?_eq_none hp]
  rfl

theorem length_view (r : RingBuffer T) : (view r).cells.length = r.writeHead := by
  unfold view
  rw [List.length_map, List.length_range]

/-- The positions that a read is about are those in front of the read head. -/
theorem slots_view (r : RingBuffer T) (requested : Nat) (emitUnderflow : Bool) :
    (view r).slots r.capacity requested emitUnderflow =
      (List.range' r.readHead (span r requested emitUnderflow)).map
        ((view r).slotAt r.capacity) := by
  unfold Timeline.slots span
  dsimp only
  cases emitUnderflow with
  | true =>
    rw [if_pos rfl, if_pos rfl]
    rfl
  | false =>
    rw [if_neg Bool.false_ne_true, if_neg Bool.false_ne_true]
    have hsplit : List.range' r.readHead requested =
        List.range' r.readHead (min requested (r.writeHead - r.readHead)) ++
          List.range' (r.readHead + min requested (r.writeHead - r.readHead))
            (requested - min requested (r.writeHead - r.readHead)) := by
      rw [List.range'_append_1]
      congr 1
      omega
    have hfront : ∀ slot ∈ (List.range' r.readHead (min requested (r.writeHead - r.readHead))).map
        ((view r).slotAt r.capacity), (!slot.isUnderflow) = true := by
      intro slot hslot
      obtain ⟨p, hp, rfl⟩ := List.mem_map.mp hslot
      rw [List.mem_range'_1] at hp
      rw [not_isUnderflow_slotAt (by rw [length_view]; omega)]
      rfl
    have hback : ∀ slot ∈ (List.range' (r.readHead + min requested (r.writeHead - r.readHead))
        (requested - min requested (r.writeHead - r.readHead))).map ((view r).slotAt r.capacity),
          ¬(!slot.isUnderflow) = true := by
      intro slot hslot
      obtain ⟨p, hp, rfl⟩ := List.mem_map.mp hslot
      rw [List.mem_range'_1] at hp
      rw [isUnderflow_slotAt (by rw [length_view]; omega)]
      exact Bool.false_ne_true
    show ((List.range' r.readHead requested).map _).filter _ = _
    rw [hsplit, List.map_append, List.filter_append, List.filter_eq_self.mpr hfront,
      List.filter_eq_nil_iff.mpr hback, List.append_nil]

/-- Every segment has a position. -/
theorem visit_pos {t : Timeline T} (h : Refines r t) (visits : Nat)
    {it : RingSegments} (hin : InWindow r t it) :
    ∀ segment ∈ (r.visit visits it).1, 0 < segment.len := by
  induction visits generalizing it with
  | zero => exact fun segment hsegment => absurd hsegment List.not_mem_nil
  | succ visits ih =>
    obtain ⟨-, hsome⟩ := next_spec h hin
    unfold RingBuffer.visit
    cases hnext : r.next it with
    | none => exact fun segment hsegment => absurd hsegment List.not_mem_nil
    | some found =>
      obtain ⟨first, it'⟩ := found
      obtain ⟨-, hpos, -, hin'⟩ := hsome first it' hnext
      intro segment hsegment
      rcases List.mem_cons.mp hsegment with rfl | hrest
      · exact hpos
      · exact ih hin' segment hrest

/-- What a read makes of a ring: the positions that it yields, and the read head behind them. -/
structure Yields (r : RingBuffer T) (result : RingBuffer T × List (RingSegment T)) (k : Nat) :
    Prop where
  count : (result.2.map RingSegment.len).sum = k
  slots : result.2.flatMap slotsOf =
    (List.range' r.readHead k).map ((view r).slotAt r.capacity)
  pos : ∀ segment ∈ result.2, 0 < segment.len
  after : result.1 = { r with readHead := (r.readHead + k) % 2 ^ 64 }

/-- **One read** yields a front part of its positions, a complete one all of them. -/
theorem Shaped.takeSegments (h : Shaped r) (hunread : UnreadMirrored r)
    (requested : Nat) (emitUnderflow : Bool) (visits : Nat) :
    ∃ k, k ≤ span r requested emitUnderflow ∧
      (requested < visits → k = span r requested emitUnderflow) ∧
        Yields r (r.takeSegments requested emitUnderflow visits) k := by
  have hrefines := h.overPages_refines
  have hagree : AgreeUnread r (overPages r) := by
    intro p hp
    obtain ⟨hlow, hhigh⟩ := h.pages_cells (Nat.mod_lt p h.framed.capacity_pos)
    exact ⟨hlow, hhigh.trans (hunread p hp).symm⟩
  have hreadable : (r.iterSegments requested emitUnderflow).readable ≤ r.capacity := by
    unfold RingBuffer.iterSegments
    dsimp only
    omega
  have hvisit := h.overPages_twins.visit_eq visits hreadable
    (fun p hp hlt => hagree p (unread_of_iterSegments hp hlt))
  obtain ⟨hin, hpending⟩ := pending_iterSegments hrefines requested emitUnderflow
  have hiterator : (overPages r).iterSegments requested emitUnderflow =
    r.iterSegments requested emitUnderflow := rfl
  rw [hiterator] at hin hpending
  have hpos := visit_pos hrefines visits hin
  obtain ⟨hfront, hconsumed, hall⟩ := visit_spec hrefines visits hin
  have hcapacity : (overPages r).capacity = r.capacity := rfl
  rw [hvisit] at hpos hfront hconsumed hall
  rw [hcapacity] at hfront hpending hall
  rw [hpending, slots_view] at hfront hall
  have hcount : (((r.visit visits (r.iterSegments requested emitUnderflow)).1).map
      RingSegment.len).sum =
        ((r.visit visits (r.iterSegments requested emitUnderflow)).1.flatMap slotsOf).length := by
    rw [List.length_flatMap]
    congr 1
    exact List.map_congr_left fun segment _ => (length_slotsOf segment).symm
  have hzero : (r.iterSegments requested emitUnderflow).consumed = 0 := rfl
  rw [hzero, Nat.zero_add] at hconsumed
  have hspan : span r requested emitUnderflow ≤ requested := by
    unfold span
    split <;> omega
  have hlength := congrArg List.length hfront
  rw [List.length_append, List.length_map, List.length_range', ← hcount] at hlength
  generalize hk : (((r.visit visits (r.iterSegments requested emitUnderflow)).1).map
    RingSegment.len).sum = k at hcount hconsumed hlength
  refine ⟨k, by omega, fun hvisits => ?_, hk, ?_, hpos, ?_⟩
  · have hdone := hall (by rw [List.length_map, List.length_range']; omega)
    rw [hdone, List.length_nil] at hlength
    omega
  · have htake := congrArg (List.take k) hfront
    rw [hcount, List.take_left, ← List.map_take, List.take_range'_of_length_ge (by omega),
      ← hcount] at htake
    exact htake.symm
  · show r.readCommit (r.visit visits (r.iterSegments requested emitUnderflow)).2.consumed = _
    rw [hconsumed]
    unfold RingBuffer.readCommit
    by_cases hnone : k = 0
    · rw [if_pos hnone, hnone, Nat.add_zero, Nat.mod_eq_of_lt h.read]
    · rw [if_neg hnone]
      rfl

/-! ## Reading on -/

/-- **Where reading on is safe**: the second part has nothing to yield, or the read head does not
wrap in front of it, or wraps and still is not before the write head. -/
def StaysInFront (r : RingBuffer T) (first rest : Nat) (emitUnderflow : Bool) : Prop :=
  emitUnderflow = false ∨ r.readHead + first < 2 ^ 64 ∨ rest = 0 ∨
    r.writeHead ≤ r.readHead + first - 2 ^ 64

/-- Reading on behind a first part gives, when segments are merged, what one read gives, and ends
at the same position. -/
def ReadsOn (r : RingBuffer T) (first : RingBuffer T × List (RingSegment T))
    (rest requested : Nat) (emitUnderflow : Bool) : Prop :=
  mergeSegments (first.2 ++ (first.1.readSegments rest emitUnderflow).2) =
      mergeSegments (r.readSegments requested emitUnderflow).2 ∧
    (first.1.readSegments rest emitUnderflow).1.readHead =
      (r.readSegments requested emitUnderflow).1.readHead

/-- The positions of two parts and those of one read. -/
theorem parts_iff (h : Shaped r) {k rest requested : Nat} {emitUnderflow : Bool}
    (hrequested : requested < 2 ^ 64) (hk : k ≤ span r requested emitUnderflow)
    (hrest : span r requested emitUnderflow =
      k + if emitUnderflow then rest else min rest (r.writeHead - (r.readHead + k))) :
    ((List.range' r.readHead k).map ((view r).slotAt r.capacity) ++
          (List.range' ((r.readHead + k) % 2 ^ 64) (span { r with
            readHead := (r.readHead + k) % 2 ^ 64 } rest emitUnderflow)).map
              ((view r).slotAt r.capacity) =
        (List.range' r.readHead (span r requested emitUnderflow)).map
          ((view r).slotAt r.capacity) ∧
      ((r.readHead + k) % 2 ^ 64 + span { r with
          readHead := (r.readHead + k) % 2 ^ 64 } rest emitUnderflow) % 2 ^ 64 =
        (r.readHead + span r requested emitUnderflow) % 2 ^ 64) ↔
      StaysInFront r k rest emitUnderflow := by
  have hwritten := h.written
  have hread := h.read
  unfold StaysInFront
  by_cases hroom : r.readHead + k < 2 ^ 64
  · have hspan : span { r with readHead := r.readHead + k } rest emitUnderflow =
        if emitUnderflow then rest else min rest (r.writeHead - (r.readHead + k)) := rfl
    rw [Nat.mod_eq_of_lt hroom, hspan, hrest, ← List.map_append, List.range'_append_1,
      Nat.add_assoc]
    exact ⟨fun _ => Or.inr (Or.inl hroom), fun _ => ⟨rfl, rfl⟩⟩
  · cases emitUnderflow with
    | false =>
      unfold span at hk
      rw [if_neg Bool.false_ne_true] at hk
      omega
    | true =>
      have hspan : ∀ (r : RingBuffer T) (n : Nat), span r n true = n := fun _ _ => rfl
      rw [hspan] at hk hrest ⊢
      rw [hspan, hrest, if_pos rfl]
      have hwrap : (r.readHead + k) % 2 ^ 64 = r.readHead + k - 2 ^ 64 := by
        rw [Nat.mod_eq_sub_mod (by omega), Nat.mod_eq_of_lt (by omega)]
      have hbehind : (List.range' (r.readHead + k) rest).map ((view r).slotAt r.capacity) =
          List.replicate rest .underflow :=
        map_slotAt_underflow _ _ _ _ (fun _ => by rw [length_view]; omega)
      rw [← List.range'_append_1, List.map_append, List.append_cancel_left_eq, hbehind,
        Nat.mod_add_mod, Nat.add_assoc, hwrap]
      constructor
      · rintro ⟨hslots, -⟩
        by_cases hnone : rest = 0
        · exact Or.inr (Or.inr (Or.inl hnone))
        · refine Or.inr (Or.inr (Or.inr (Nat.le_of_not_lt fun hlt => ?_)))
          have hfirst : (view r).slotAt r.capacity (r.readHead + k - 2 ^ 64) = .underflow := by
            apply List.eq_of_mem_replicate (n := rest)
            rw [← hslots]
            exact List.mem_map_of_mem (List.mem_range'_1.mpr ⟨Nat.le_refl _, by omega⟩)
          have hnot := @not_isUnderflow_slotAt T (view r) r.capacity (r.readHead + k - 2 ^ 64)
            (by rw [length_view]; exact hlt)
          rw [hfirst] at hnot
          cases hnot
      · rintro (hfalse | hlt | hnone | hahead)
        · cases hfalse
        · omega
        · rw [hnone]
          exact ⟨rfl, rfl⟩
        · exact ⟨map_slotAt_underflow _ _ _ _ (fun _ => by rw [length_view]; exact hahead), rfl⟩

/-- **Reading on** behind a part of a read. -/
theorem readsOn_iff {r : RingBuffer T} (h : Shaped r) {first : RingBuffer T × List (RingSegment T)}
    {k rest requested : Nat} {emitUnderflow : Bool} (hfirst : Yields r first k)
    (hunread : UnreadMirrored r) (hunread' : UnreadMirrored first.1)
    (hrequested : requested < 2 ^ 64) (hk : k ≤ span r requested emitUnderflow)
    (hrest : span r requested emitUnderflow =
      k + if emitUnderflow then rest else min rest (r.writeHead - (r.readHead + k))) :
    ReadsOn r first rest requested emitUnderflow ↔ StaysInFront r k rest emitUnderflow := by
  have hafter := hfirst.after
  have hshaped : Shaped first.1 := by
    rw [hafter]
    exact ⟨h.framed.of_gaps rfl rfl h.framed.sound rfl, h.length, h.written,
      Nat.mod_lt _ (Nat.two_pow_pos 64)⟩
  obtain ⟨k', -, hk', hsecond⟩ := hshaped.takeSegments hunread' rest emitUnderflow (rest + 1)
  obtain ⟨q, -, hq, hwhole⟩ := h.takeSegments hunread requested emitUnderflow (requested + 1)
  have hslots := hsecond.slots
  have hhead := congrArg RingBuffer.readHead hsecond.after
  have hview : (view first.1).slotAt first.1.capacity = (view r).slotAt r.capacity := by
    rw [hafter]
    rfl
  rw [hk' (Nat.lt_succ_self rest), hview] at hslots
  rw [hk' (Nat.lt_succ_self rest)] at hhead
  have hhead' := congrArg RingBuffer.readHead hwhole.after
  have hslots' := hwhole.slots
  rw [hq (Nat.lt_succ_self requested)] at hhead' hslots'
  have hpos : ∀ s ∈ first.2 ++ (first.1.takeSegments rest emitUnderflow (rest + 1)).2, 0 < s.len :=
    fun s hs => (List.mem_append.mp hs).elim (hfirst.pos s) (hsecond.pos s)
  rw [← parts_iff h hrequested hk hrest]
  unfold ReadsOn RingBuffer.readSegments
  rw [mergeSegments_eq_iff hpos hwhole.pos, List.flatMap_append, hfirst.slots, hslots', hslots,
    hhead, hhead', hafter]

/-- The positions that some segments speak about. -/
def yielded (segments : List (RingSegment T)) : Nat := (segments.map RingSegment.len).sum

/-- **Reads in parts.** In every state that a ring comes to, with the unread samples alike in both
halves of the storage: two reads yield what one read yields exactly when the read head stays in
front between them, an iterator that is dropped moves the read head by what it has yielded, and
reading on behind it gives the rest under the same condition. -/
theorem chunked_iff [Inhabited T] (mapped : Bool) (size : Nat) (calls : List (RingCall T))
    (r : RingBuffer T) (hrun : run performCall (newUnsplit mapped size) calls = some r)
    (n₁ n₂ : Nat) (emitUnderflow : Bool) (hcount : n₁ + n₂ < 2 ^ 64)
    (hmirrored : ∀ p, r.readHead ≤ p ∨ 2 ^ 64 ≤ r.readHead + n₁ → p < r.writeHead →
      r.writeHead ≤ p + r.capacity →
        r.ring.asSlice[p % r.capacity + r.capacity]? = r.ring.asSlice[p % r.capacity]?) :
    (ReadsOn r (r.readSegments n₁ emitUnderflow) n₂ (n₁ + n₂) emitUnderflow ↔
        StaysInFront r n₁ n₂ emitUnderflow) ∧
      ∀ visits k, k = yielded (r.takeSegments n₁ emitUnderflow visits).2 →
        (r.takeSegments n₁ emitUnderflow visits).1 =
            { r with readHead := (r.readHead + k) % 2 ^ 64 } ∧
          (ReadsOn r (r.takeSegments n₁ emitUnderflow visits) (n₁ - k) n₁ emitUnderflow ↔
            StaysInFront r k (n₁ - k) emitUnderflow) := by
  have h := shaped_run hrun
  have hwritten := h.written
  have hread := h.read
  have hunread : UnreadMirrored r :=
    fun p hp => hmirrored p (Or.inl hp.1) hp.2.1 hp.2.2
  have hspan : span r n₁ emitUnderflow ≤ n₁ := by
    unfold span
    split <;> omega
  have hunread' : ∀ k, k ≤ n₁ → ∀ r', r' = { r with readHead := (r.readHead + k) % 2 ^ 64 } →
      UnreadMirrored r' := by
    rintro k hk _ rfl p ⟨hp, hlt, hwindow⟩
    refine hmirrored p ?_ hlt hwindow
    dsimp only at hp
    omega
  refine ⟨?_, fun visits k hk => ?_⟩
  · obtain ⟨k, -, hall, hfirst⟩ := h.takeSegments hunread n₁ emitUnderflow (n₁ + 1)
    have hk := hall (Nat.lt_succ_self n₁)
    have hon := @readsOn_iff T r h _ k n₂ (n₁ + n₂) emitUnderflow hfirst hunread
      (hunread' k (by omega) _ hfirst.after) hcount
    unfold RingBuffer.readSegments
    cases emitUnderflow with
    | true =>
      have hn : k = n₁ := hk
      subst hn
      exact hon (Nat.le_add_right k n₂) rfl
    | false =>
      have hn : k = min n₁ (r.writeHead - r.readHead) := hk
      have hsum : span r (n₁ + n₂) false = min (n₁ + n₂) (r.writeHead - r.readHead) := rfl
      have hiff := hon (by omega) (by rw [hsum, if_neg Bool.false_ne_true]; omega)
      exact ⟨fun _ => Or.inl rfl, fun _ => hiff.mpr (Or.inl rfl)⟩
  · obtain ⟨k', hle, -, hfirst⟩ := h.takeSegments hunread n₁ emitUnderflow visits
    have hsame : k = k' := hk.trans hfirst.count
    subst hsame
    refine ⟨hfirst.after, readsOn_iff h hfirst hunread (hunread' k (by omega) _ hfirst.after)
      (by omega) hle ?_⟩
    cases emitUnderflow with
    | true =>
      have hn : span r n₁ true = n₁ := rfl
      rw [hn, if_pos rfl]
      omega
    | false =>
      have hn : span r n₁ false = min n₁ (r.writeHead - r.readHead) := rfl
      rw [hn] at hle
      rw [hn, if_neg Bool.false_ne_true]
      omega

/-- Overflow, samples, a gap and underflow of a ring of four, read in two parts. -/
theorem chunked_iff_gap :
    ∃ r : RingBuffer Nat, run performCall (newUnsplit true 4) [.op (.write [1, 2, 3]),
        .op (.advanceTimeline 2), .op (.write [4])] = some r ∧
      ReadsOn r (r.readSegments 3 true) 5 8 true := by
  have hall : ∀ r : RingBuffer Nat, (∀ p, p < r.writeHead →
      r.ring.asSlice[p % r.capacity + r.capacity]? = r.ring.asSlice[p % r.capacity]?) →
        ∀ p, r.readHead ≤ p ∨ 2 ^ 64 ≤ r.readHead + 3 → p < r.writeHead →
          r.writeHead ≤ p + r.capacity →
            r.ring.asSlice[p % r.capacity + r.capacity]? = r.ring.asSlice[p % r.capacity]? :=
    fun _ h p _ hp _ => h p hp
  refine ⟨_, rfl, (chunked_iff true 4 [.op (.write [1, 2, 3]), .op (.advanceTimeline 2),
    .op (.write [4])] _ rfl 3 5 true (by decide) (hall _ ?_)).1.mpr
      (Or.inr (Or.inl (by decide)))⟩
  decide +kernel

/-- **A wrapped read head replays the timeline.** A read of `2 ^ 64 - 1` samples of an empty ring
leaves the read head one before the wrap. One read of two is then underflow; two reads of one are
underflow and the first sample. -/
theorem wrapped_head_replays :
    ∃ r : RingBuffer Nat, run performCall (newUnsplit true 4)
        [.op (.takeSegments (2 ^ 64 - 1) true 2), .op (.write [1])] = some r ∧
      (r.readSegments 2 true).2 = [.underflow 2] ∧
      (r.readSegments 1 true).2 ++ ((r.readSegments 1 true).1.readSegments 1 true).2 =
        [.underflow 1, .data [1]] ∧
      ¬ReadsOn r (r.readSegments 1 true) 1 2 true := by
  refine ⟨_, rfl, ?_, ?_, ?_⟩
  · decide +kernel
  · decide +kernel
  · unfold ReadsOn
    decide +kernel

end Catplay.Analysis.Ring
