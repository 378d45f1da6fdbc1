import Catplay.Analysis.Ring.Timeline
import Catplay.Library.Run

/-!
# Reading the timeline off the ring

A read of a ring that refines a timeline yields the timeline from the read position on
(`takeSegments_spec`, `read_spec`). With the steps of the writer this holds in every run in
which samples land on their own positions (`reads_agree_with_timeline`); a write of more
samples than fit may leave them rotated (`long_write_rotates`).
-/

set_option autoImplicit false

namespace Catplay.Analysis.Ring

open Catplay.Library.Run Catplay.Model.Ring Catplay.Model.Ring.RingBuffer

variable {T : Type}

/-! ## Reading -/

variable {r : RingBuffer T} {t : Timeline T}

/-- **The next gap on the timeline**, from a position on. -/
theorem searchGapAbs_spec (h : Framed r) (start : Nat) {len : Nat} (hcap : len ≤ r.capacity) :
    (r.searchGapAbs start len = none →
      ∀ p, start ≤ p → p < start + len → bit r.gaps (p % r.capacity) = false) ∧
    (∀ g n, r.searchGapAbs start len = some (g, n) →
      start ≤ g ∧ 0 < n ∧ g + n ≤ start + len ∧
        (∀ p, start ≤ p → p < g → bit r.gaps (p % r.capacity) = false) ∧
        ∀ p, g ≤ p → p < g + n → bit r.gaps (p % r.capacity) = true) := by
  have hpos := h.capacity_pos
  have hstart : start % r.capacity < r.capacity := Nat.mod_lt _ hpos
  have hindex : ∀ p, start ≤ p → p < start + len → p % r.capacity =
      if start % r.capacity + (p - start) < r.capacity then start % r.capacity + (p - start)
      else start % r.capacity + (p - start) - r.capacity := by
    intro p hle hlt
    rw [← mod_add_eq start r.capacity (p - start) (by omega)]
    congr 1
    omega
  unfold RingBuffer.searchGapAbs
  rw [h.ringIndex]
  dsimp only
  generalize hs : start % r.capacity = s at hstart hindex ⊢
  cases hfirst : r.gaps.searchNextGap s (min len (r.capacity - s)) with
  | some found =>
    obtain ⟨gapStart, gapLen⟩ := found
    obtain ⟨hle, hgapPos, hfits, hbefore, hset⟩ := searchNextGap_some hfirst
    have hlow : ∀ p, start ≤ p → p < start + (gapStart - s) →
        bit r.gaps (p % r.capacity) = false := by
      intro p hp hlt
      rw [hindex p hp (by omega), if_pos (by omega)]
      exact hbefore _ (by omega) (by omega)
    have hgap : ∀ p, start + (gapStart - s) ≤ p → p < start + (gapStart - s) + gapLen →
        bit r.gaps (p % r.capacity) = true := by
      intro p hp hlt
      rw [hindex p (by omega) (by omega), if_pos (by omega)]
      exact hset _ (by omega) (by omega)
    have hplain : start ≤ start + (gapStart - s) ∧ 0 < gapLen ∧
        start + (gapStart - s) + gapLen ≤ start + len ∧
        (∀ p, start ≤ p → p < start + (gapStart - s) → bit r.gaps (p % r.capacity) = false) ∧
        ∀ p, start + (gapStart - s) ≤ p → p < start + (gapStart - s) + gapLen →
          bit r.gaps (p % r.capacity) = true :=
      ⟨by omega, hgapPos, by omega, hlow, hgap⟩
    dsimp only
    by_cases hmerge : gapStart + gapLen = r.capacity ∧ len > min len (r.capacity - s)
    · rw [if_pos hmerge]
      cases hsecond : r.gaps.searchNextGap 0 (len - min len (r.capacity - s)) with
      | none =>
        refine ⟨(fun hnone => by cases hnone), fun g n hsome => ?_⟩
        simp only [Option.some.injEq, Prod.mk.injEq] at hsome
        obtain ⟨rfl, rfl⟩ := hsome
        exact hplain
      | some next =>
        obtain ⟨nextStart, nextLen⟩ := next
        obtain ⟨-, -, hnextFits, -, hnextSet⟩ := searchNextGap_some hsecond
        refine ⟨(fun hnone => by cases hnone), fun g n hsome => ?_⟩
        simp only [Option.some.injEq, Prod.mk.injEq] at hsome
        obtain ⟨rfl, rfl⟩ := hsome
        by_cases hzero : nextStart = 0
        · subst hzero
          rw [if_pos rfl]
          refine ⟨by omega, by omega, by omega, hlow, fun p hp hlt => ?_⟩
          by_cases hin : p < start + (gapStart - s) + gapLen
          · exact hgap p hp hin
          · rw [hindex p (by omega) (by omega), if_neg (by omega)]
            exact hnextSet _ (by omega) (by omega)
        · rw [if_neg hzero]
          exact hplain
    · rw [if_neg hmerge]
      refine ⟨(fun hnone => by cases hnone), fun g n hsome => ?_⟩
      simp only [Option.some.injEq, Prod.mk.injEq] at hsome
      obtain ⟨rfl, rfl⟩ := hsome
      exact hplain
  | none =>
    have hnone := searchNextGap_none h.sound hfirst
    have hlow : ∀ p, start ≤ p → p < start + min len (r.capacity - s) →
        bit r.gaps (p % r.capacity) = false := by
      intro p hp hlt
      rw [hindex p hp (by omega), if_pos (by omega)]
      exact hnone _ (by omega) (by omega)
    dsimp only
    by_cases hwraps : len > min len (r.capacity - s)
    · rw [if_pos hwraps]
      cases hsecond : r.gaps.searchNextGap 0 (len - min len (r.capacity - s)) with
      | none =>
        have hnone' := searchNextGap_none h.sound hsecond
        refine ⟨fun _ p hp hlt => ?_, fun g n hsome => by cases hsome⟩
        by_cases hin : p < start + min len (r.capacity - s)
        · exact hlow p hp hin
        · rw [hindex p hp hlt, if_neg (by omega)]
          exact hnone' _ (by omega) (by omega)
      | some found =>
        obtain ⟨gapStart, gapLen⟩ := found
        obtain ⟨-, hgapPos, hfits, hbefore, hset⟩ := searchNextGap_some hsecond
        refine ⟨(fun hnone => by cases hnone), fun g n hsome => ?_⟩
        simp only [Option.some.injEq, Prod.mk.injEq] at hsome
        obtain ⟨rfl, rfl⟩ := hsome
        refine ⟨by omega, hgapPos, by omega, fun p hp hlt => ?_, fun p hp hlt => ?_⟩
        · by_cases hin : p < start + min len (r.capacity - s)
          · exact hlow p hp hin
          · rw [hindex p hp (by omega), if_neg (by omega)]
            exact hbefore _ (by omega) (by omega)
        · rw [hindex p (by omega) (by omega), if_neg (by omega)]
          exact hset _ (by omega) (by omega)
    · rw [if_neg hwraps]
      refine ⟨fun _ p hp hlt => hlow p hp (by omega), fun g n hsome => by cases hsome⟩

/-- In the window a position shows its cell. -/
theorem Refines.slotAt_gap (h : Refines r t) {p : Nat}
    (hp : p < t.cells.length) (hwindow : t.cells.length ≤ p + r.capacity)
    (hbit : bit r.gaps (p % r.capacity) = true) : t.slotAt r.capacity p = .gap := by
  unfold Timeline.slotAt
  rw [if_neg (by omega), h.cells p hp hwindow]
  unfold cellAt
  rw [if_pos hbit]

theorem Refines.slotAt_data (h : Refines r t) {p : Nat} (hp : p < t.cells.length)
    (hwindow : t.cells.length ≤ p + r.capacity) (hbit : bit r.gaps (p % r.capacity) = false)
    {sample : T} (hsample : r.ring.asSlice[p % r.capacity]? = some sample) :
    t.slotAt r.capacity p = .data sample := by
  unfold Timeline.slotAt
  rw [if_neg (by omega), h.cells p hp hwindow]
  unfold cellAt
  rw [hbit, if_neg Bool.false_ne_true, hsample]

/-- The cells of the slice from a ring position on. -/
theorem Refines.asSlice_add (h : Refines r t) {cursor j : Nat} (hj : j < r.capacity) :
    r.ring.asSlice[cursor % r.capacity + j]? = r.ring.asSlice[(cursor + j) % r.capacity]? := by
  have hlt : cursor % r.capacity < r.capacity := Nat.mod_lt _ h.capacity_pos
  rw [mod_add_eq cursor r.capacity j hj]
  by_cases hsum : cursor % r.capacity + j < r.capacity
  · rw [if_pos hsum]
  · rw [if_neg hsum, ← h.mirrored.mirror (cursor % r.capacity + j - r.capacity) (by omega)]
    congr 1
    omega

theorem Refines.slots_data (h : Refines r t)
    (cursor n : Nat) (hn : n ≤ r.capacity)
    (hwindow : ∀ p, cursor ≤ p → p < cursor + n →
      p < t.cells.length ∧ t.cells.length ≤ p + r.capacity)
    (hbits : ∀ p, cursor ≤ p → p < cursor + n → bit r.gaps (p % r.capacity) = false) :
    ((r.ring.asSlice.drop (cursor % r.capacity)).take n).length = n ∧
      ((r.ring.asSlice.drop (cursor % r.capacity)).take n).map Slot.data =
        (List.range' cursor n).map (t.slotAt r.capacity) := by
  have hlt : cursor % r.capacity < r.capacity := Nat.mod_lt _ h.capacity_pos
  have hlength : ((r.ring.asSlice.drop (cursor % r.capacity)).take n).length = n := by
    rw [List.length_take, List.length_drop, h.mirrored.length]
    omega
  refine ⟨hlength, List.ext_getElem? fun j => ?_⟩
  rw [List.getElem?_map, List.getElem?_map]
  by_cases hj : j < n
  · have hrange : (List.range' cursor n)[j]? = some (cursor + j) := by
      rw [List.getElem?_range' hj, Nat.one_mul]
    have hmod : (cursor + j) % r.capacity < r.capacity := Nat.mod_lt _ h.capacity_pos
    have hin : (cursor + j) % r.capacity < r.ring.asSlice.length := by
      rw [h.mirrored.length]
      omega
    have hsample := List.getElem?_eq_getElem hin
    obtain ⟨hp, hw⟩ := hwindow (cursor + j) (by omega) (by omega)
    rw [List.getElem?_take, if_pos hj, List.getElem?_drop, h.asSlice_add (by omega), hsample, hrange,
      Option.map_some, Option.map_some,
      h.slotAt_data hp hw (hbits _ (by omega) (by omega)) hsample]
  · rw [List.getElem?_eq_none (by omega), List.getElem?_eq_none (by rw [List.length_range']; omega)]
    rfl

/-- **One segment** says what the timeline has at its positions. -/
theorem Refines.segmentAt (h : Refines r t)
    {cursor readable : Nat} (hpos : 0 < readable) (hcap : readable ≤ r.capacity)
    (hwindow : ∀ p, cursor ≤ p → p < cursor + readable →
      p < t.cells.length ∧ t.cells.length ≤ p + r.capacity) :
    0 < (r.segmentAt cursor readable).len ∧ (r.segmentAt cursor readable).len ≤ readable ∧
      slotsOf (r.segmentAt cursor readable) =
        (List.range' cursor (r.segmentAt cursor readable).len).map (t.slotAt r.capacity) := by
  obtain ⟨hnone, hsome⟩ := searchGapAbs_spec h.framed cursor hcap
  unfold RingBuffer.segmentAt
  rw [h.ringIndex]
  cases hsearch : r.searchGapAbs cursor readable with
  | none =>
    obtain ⟨hlength, hslots⟩ := h.slots_data _ _ hcap hwindow (hnone hsearch)
    unfold RingSegment.len slotsOf
    dsimp only
    rw [hlength]
    exact ⟨hpos, Nat.le_refl _, hslots⟩
  | some found =>
    obtain ⟨g, n⟩ := found
    obtain ⟨hle, hn, hfits, hbefore, hset⟩ := hsome g n hsearch
    dsimp only
    by_cases hhere : g = cursor
    · subst hhere
      rw [if_pos rfl]
      refine ⟨hn, (show n ≤ readable by omega), ?_⟩
      unfold slotsOf RingSegment.len
      dsimp only
      symm
      rw [List.eq_replicate_iff]
      refine ⟨by simp, fun slot hslot => ?_⟩
      obtain ⟨p, hp, rfl⟩ := List.mem_map.mp hslot
      rw [List.mem_range'_1] at hp
      obtain ⟨hlt, hw⟩ := hwindow p hp.1 (by omega)
      exact h.slotAt_gap hlt hw (hset p hp.1 hp.2)
    · rw [if_neg hhere]
      obtain ⟨hlength, hslots⟩ := h.slots_data cursor (g - cursor) (by omega)
        (fun p hp hlt => hwindow p hp (by omega)) (fun p hp hlt => hbefore p hp (by omega))
      unfold RingSegment.len slotsOf
      dsimp only
      rw [hlength]
      exact ⟨by omega, by omega, hslots⟩

/-! ## The iterator -/

/-- What an iterator still has to yield. -/
def pending (t : Timeline T) (cap : Nat) (it : RingSegments) : List (Slot T) :=
  List.replicate it.overflow .overflow ++
    (List.range' it.cursor it.readable).map (t.slotAt cap) ++
      List.replicate it.underflow .underflow

/-- The readable positions of an iterator lie in the window. -/
structure InWindow (r : RingBuffer T) (t : Timeline T) (it : RingSegments) : Prop where
  bound : it.readable ≤ r.capacity
  window : ∀ p, it.cursor ≤ p → p < it.cursor + it.readable →
    p < t.cells.length ∧ t.cells.length ≤ p + r.capacity

/-- **One call of `next`** yields the front of what is pending. -/
theorem next_spec (h : Refines r t) {it : RingSegments} (hin : InWindow r t it) :
    (r.next it = none → pending t r.capacity it = []) ∧
    ∀ segment it', r.next it = some (segment, it') →
      pending t r.capacity it = slotsOf segment ++ pending t r.capacity it' ∧
        0 < segment.len ∧ it'.consumed = it.consumed + segment.len ∧ InWindow r t it' := by
  unfold RingBuffer.next
  by_cases hover : it.overflow > 0
  · rw [if_pos hover]
    refine ⟨(fun hnone => by cases hnone), fun segment it' hsome => ?_⟩
    obtain ⟨rfl, rfl⟩ := Prod.mk.inj (Option.some.inj hsome)
    refine ⟨?_, hover, rfl, hin.bound, hin.window⟩
    simp [pending, slotsOf]
  · have hover' : it.overflow = 0 := by omega
    rw [if_neg hover]
    by_cases hread : it.readable > 0
    · rw [if_pos hread]
      obtain ⟨hpos, hle, hslots⟩ := h.segmentAt hread hin.bound hin.window
      refine ⟨(fun hnone => by cases hnone), fun segment it' hsome => ?_⟩
      obtain ⟨rfl, rfl⟩ := Prod.mk.inj (Option.some.inj hsome)
      refine ⟨?_, hpos, rfl, ?_, fun p hp hlt => ?_⟩
      · have hsplit : List.range' it.cursor it.readable =
            List.range' it.cursor (r.segmentAt it.cursor it.readable).len ++
              List.range' (it.cursor + (r.segmentAt it.cursor it.readable).len)
                (it.readable - (r.segmentAt it.cursor it.readable).len) := by
          rw [List.range'_append_1]
          congr 1
          omega
        unfold pending
        dsimp only
        rw [hover', hslots, hsplit, List.map_append]
        simp
      · have hbound := hin.bound
        dsimp only
        omega
      · dsimp only at hp hlt
        exact hin.window p (by omega) (by omega)
    · have hread' : it.readable = 0 := by omega
      rw [if_neg hread]
      by_cases hunder : it.underflow > 0
      · rw [if_pos hunder]
        refine ⟨(fun hnone => by cases hnone), fun segment it' hsome => ?_⟩
        obtain ⟨rfl, rfl⟩ := Prod.mk.inj (Option.some.inj hsome)
        refine ⟨?_, hunder, rfl, hin.bound, hin.window⟩
        simp [pending, slotsOf, hover', hread']
      · rw [if_neg hunder]
        refine ⟨fun _ => ?_, fun segment it' hsome => by cases hsome⟩
        have hunder' : it.underflow = 0 := by omega
        simp [pending, hover', hread', hunder']

/-- **Some calls of `next`** yield a front part of what is pending, and enough of them all. -/
theorem visit_spec (h : Refines r t) (visits : Nat) {it : RingSegments} (hin : InWindow r t it) :
    pending t r.capacity it =
        (r.visit visits it).1.flatMap slotsOf ++ pending t r.capacity (r.visit visits it).2 ∧
      (r.visit visits it).2.consumed =
        it.consumed + ((r.visit visits it).1.map RingSegment.len).sum ∧
      ((pending t r.capacity it).length < visits →
        pending t r.capacity (r.visit visits it).2 = []) := by
  induction visits generalizing it with
  | zero => exact ⟨rfl, rfl, fun hlt => absurd hlt (Nat.not_lt_zero _)⟩
  | succ visits ih =>
    obtain ⟨hnone, hsome⟩ := next_spec h hin
    unfold RingBuffer.visit
    cases hnext : r.next it with
    | none =>
      have hempty := hnone hnext
      exact ⟨rfl, rfl, fun _ => hempty⟩
    | some found =>
      obtain ⟨segment, it'⟩ := found
      obtain ⟨hpending, hpos, hconsumed, hin'⟩ := hsome segment it' hnext
      obtain ⟨hrest, hconsumed', hdone⟩ := ih hin'
      dsimp only
      refine ⟨?_, ?_, fun hlt => hdone ?_⟩
      · rw [hpending, List.flatMap_cons, List.append_assoc, ← hrest]
      · rw [hconsumed', hconsumed, List.map_cons, List.sum_cons, Nat.add_assoc]
      · rw [hpending, List.length_append, length_slotsOf] at hlt
        omega

theorem map_slotAt_overflow (t : Timeline T) (cap start count : Nat)
    (hold : ∀ p, start ≤ p → p < start + count → p + cap < t.cells.length) :
    (List.range' start count).map (t.slotAt cap) = List.replicate count .overflow := by
  rw [List.eq_replicate_iff]
  refine ⟨by simp, fun slot hslot => ?_⟩
  obtain ⟨p, hp, rfl⟩ := List.mem_map.mp hslot
  rw [List.mem_range'_1] at hp
  unfold Timeline.slotAt
  rw [if_pos (hold p hp.1 hp.2)]

theorem map_slotAt_underflow (t : Timeline T) (cap start count : Nat)
    (hstart : 0 < count → t.cells.length ≤ start) :
    (List.range' start count).map (t.slotAt cap) = List.replicate count .underflow := by
  rw [List.eq_replicate_iff]
  refine ⟨by simp, fun slot hslot => ?_⟩
  obtain ⟨p, hp, rfl⟩ := List.mem_map.mp hslot
  rw [List.mem_range'_1] at hp
  have hle := hstart (by omega)
  unfold Timeline.slotAt
  rw [if_neg (by omega), List.getElem?_eq_none (by omega)]

theorem not_isUnderflow_slotAt {t : Timeline T} {cap p : Nat} (hp : p < t.cells.length) :
    (t.slotAt cap p).isUnderflow = false := by
  unfold Timeline.slotAt
  split
  · rfl
  · rw [List.getElem?_eq_getElem hp]
    cases t.cells[p] <;> rfl

/-- **A new iterator** has the requested positions before it. -/
theorem pending_iterSegments (h : Refines r t) (requested : Nat) (emitUnderflow : Bool) :
    InWindow r t (r.iterSegments requested emitUnderflow) ∧
      pending t r.capacity (r.iterSegments requested emitUnderflow) =
        t.slots r.capacity requested emitUnderflow := by
  have hread := h.read
  have hwritten := h.written
  unfold RingBuffer.iterSegments
  dsimp only
  rw [hread, hwritten]
  generalize hlost : min (t.cells.length - r.capacity - t.read) requested = lost
  generalize hreadable : min (min (t.cells.length - (t.read + lost)) r.capacity)
    (requested - lost) = readable
  have hwindow : ∀ p, t.read + lost ≤ p → p < t.read + lost + readable →
      p < t.cells.length ∧ t.cells.length ≤ p + r.capacity := by
    intro p hp hlt
    omega
  refine ⟨⟨by dsimp only; omega, hwindow⟩, ?_⟩
  have hsplit : List.range' t.read requested = List.range' t.read lost ++
      List.range' (t.read + lost) readable ++
        List.range' (t.read + lost + readable) (requested - lost - readable) := by
    rw [List.range'_append_1, Nat.add_assoc, List.range'_append_1]
    congr 1
    omega
  have hold := map_slotAt_overflow t r.capacity t.read lost
    (fun p hp hlt => by omega)
  have hnew := map_slotAt_underflow t r.capacity
    (t.read + lost + readable) (requested - lost - readable) (fun hpos => by omega)
  unfold pending Timeline.slots
  dsimp only
  rw [hsplit, List.map_append, List.map_append, hold, hnew]
  cases emitUnderflow with
  | true => rfl
  | false =>
    have hmiddle : ((List.range' (t.read + lost) readable).map (t.slotAt r.capacity)).filter
        (fun slot => !slot.isUnderflow) =
          (List.range' (t.read + lost) readable).map (t.slotAt r.capacity) := by
      rw [List.filter_eq_self]
      intro slot hslot
      obtain ⟨p, hp, rfl⟩ := List.mem_map.mp hslot
      rw [List.mem_range'_1] at hp
      rw [not_isUnderflow_slotAt (hwindow p hp.1 hp.2).1]
      rfl
    have holdKept : (List.replicate lost (Slot.overflow (T := T))).filter
        (fun slot => !slot.isUnderflow) = List.replicate lost .overflow := by
      simp [Slot.isUnderflow]
    have hnewDropped : (List.replicate (requested - lost - readable)
        (Slot.underflow (T := T))).filter (fun slot => !slot.isUnderflow) = [] := by
      simp [Slot.isUnderflow]
    simp only [Bool.false_eq_true, if_false]
    rw [List.filter_append, List.filter_append, holdKept, hmiddle, hnewDropped,
      List.replicate_zero]

/-- **A read** yields the timeline from the read position on, a dropped iterator a front part
of it, and the read position moves by what was yielded. -/
theorem takeSegments_spec (h : Refines r t)
    (requested : Nat) (emitUnderflow : Bool) (visits : Nat) :
    (r.takeSegments requested emitUnderflow visits).2.flatMap slotsOf <+:
        t.slots r.capacity requested emitUnderflow ∧
      (requested < visits → (r.takeSegments requested emitUnderflow visits).2.flatMap slotsOf =
        t.slots r.capacity requested emitUnderflow) ∧
      (r.readHead + requested < 2 ^ 64 →
        Refines (r.takeSegments requested emitUnderflow visits).1
          { t with read := t.read +
              ((r.takeSegments requested emitUnderflow visits).2.map RingSegment.len).sum }) := by
  obtain ⟨hin, hpending⟩ := pending_iterSegments h requested emitUnderflow
  obtain ⟨hfront, hconsumed, hall⟩ := visit_spec h visits hin
  rw [hpending] at hfront hall
  have hlength : (t.slots r.capacity requested emitUnderflow).length ≤ requested := by
    unfold Timeline.slots
    dsimp only
    split
    · simp
    · refine Nat.le_trans (List.length_filter_le _ _) ?_
      simp
  refine ⟨⟨_, hfront.symm⟩, fun hvisits => ?_, fun hroom => ?_⟩
  · rw [hall (by omega), List.append_nil] at hfront
    exact hfront.symm
  · have hzero : (r.iterSegments requested emitUnderflow).consumed = 0 := rfl
    have hsum : ((r.visit visits (r.iterSegments requested emitUnderflow)).1.map
        RingSegment.len).sum ≤ requested := by
      have hcount : ((r.visit visits (r.iterSegments requested emitUnderflow)).1.flatMap
          slotsOf).length ≤ requested := by
        have hle := congrArg List.length hfront
        rw [List.length_append] at hle
        omega
      simpa [List.length_flatMap, length_slotsOf, Function.comp_def] using hcount
    have hcommit : (r.takeSegments requested emitUnderflow visits).1 =
        { r with readHead := r.readHead + ((r.visit visits
          (r.iterSegments requested emitUnderflow)).1.map RingSegment.len).sum } := by
      unfold RingBuffer.takeSegments RingBuffer.readCommit
      dsimp only
      rw [hconsumed, hzero, Nat.zero_add]
      split
      · next hnone =>
        rw [hnone, Nat.add_zero]
      · unfold fetchAdd
        rw [Nat.mod_eq_of_lt (by omega)]
    rw [hcommit]
    refine ⟨h.pow, h.mask, h.mirrored, h.sound, h.gapsCapacity, h.written, ?_, h.cells⟩
    show r.readHead + _ = t.read + _
    rw [h.read]
    rfl

/-! ## `read` -/

/-- The output of a read: the samples that are there, and elsewhere what was in the buffer. -/
def fill (slots : List (Slot T)) (out : List T) : List T :=
  List.zipWith (fun slot old => match slot with | .data sample => sample | _ => old) slots out

/-- The report of a read. -/
def reportOf (slots : List (Slot T)) : XRunReport where
  overflow := slots.countP fun slot => slot matches .overflow
  copied := slots.countP fun slot => slot matches .data _
  underflow := slots.countP fun slot => slot matches .gap || slot matches .underflow

/-- The counts of two parts of a read. -/
def addReports (a b : XRunReport) : XRunReport :=
  ⟨a.overflow + b.overflow, a.copied + b.copied, a.underflow + b.underflow⟩

theorem reportOf_append (slots more : List (Slot T)) :
    reportOf (slots ++ more) = addReports (reportOf slots) (reportOf more) := by
  unfold reportOf addReports
  simp only [List.countP_append]

theorem addReports_assoc (a b c : XRunReport) :
    addReports (addReports a b) c = addReports a (addReports b c) := by
  unfold addReports
  simp only [Nat.add_assoc]

theorem fill_append (slots more : List (Slot T)) (out : List T) (hout : slots.length ≤ out.length) :
    fill (slots ++ more) out =
      fill slots (out.take slots.length) ++ fill more (out.drop slots.length) := by
  unfold fill
  rw [← List.zipWith_append (by rw [List.length_take]; omega), List.take_append_drop]

theorem fill_slotsOf (segment : RingSegment T) (out : List T) (hout : out.length = segment.len) :
    fill (slotsOf segment) out =
      match segment with
      | .data samples => samples
      | _ => out := by
  have hconst : ∀ (slot : Slot T) (count : Nat), (∀ sample, slot ≠ .data sample) →
      out.length = count → fill (List.replicate count slot) out = out := by
    intro slot count hslot hcount
    apply List.ext_getElem?
    intro i
    unfold fill
    rw [List.getElem?_zipWith, List.getElem?_replicate]
    by_cases hi : i < count
    · rw [if_pos hi, List.getElem?_eq_getElem (by omega)]
      cases slot with
      | data sample => exact absurd rfl (hslot sample)
      | gap => rfl
      | overflow => rfl
      | underflow => rfl
    · rw [if_neg hi, List.getElem?_eq_none (by omega)]
  cases segment with
  | data samples =>
    have hsamples : out.length = samples.length := hout
    apply List.ext_getElem?
    intro i
    unfold fill slotsOf
    dsimp only
    rw [List.getElem?_zipWith, List.getElem?_map]
    by_cases hi : i < samples.length
    · rw [List.getElem?_eq_getElem hi, List.getElem?_eq_getElem (by omega)]
      rfl
    · rw [List.getElem?_eq_none (by omega)]
      rfl
  | gap count => exact hconst .gap count (fun _ h => by cases h) hout
  | overflow count => exact hconst .overflow count (fun _ h => by cases h) hout
  | underflow count => exact hconst .underflow count (fun _ h => by cases h) hout

theorem reportOf_slotsOf (segment : RingSegment T) :
    reportOf (slotsOf segment) =
      match segment with
      | .data samples => ⟨0, samples.length, 0⟩
      | .overflow count => ⟨count, 0, 0⟩
      | .gap count | .underflow count => ⟨0, 0, count⟩ := by
  cases segment with
  | data samples =>
    unfold reportOf slotsOf
    simp [List.countP_map, Function.comp_def]
  | gap count => simp [reportOf, slotsOf, List.countP_replicate]
  | overflow count => simp [reportOf, slotsOf, List.countP_replicate]
  | underflow count => simp [reportOf, slotsOf, List.countP_replicate]

/-- One segment is copied to where the read stands. -/
theorem readSegment_eq (state : Reading T) (segment : RingSegment T)
    (hfits : state.cursor + segment.len ≤ state.out.length) :
    readSegment state segment =
      { out := state.out.take state.cursor ++
          fill (slotsOf segment) ((state.out.drop state.cursor).take segment.len) ++
            state.out.drop (state.cursor + segment.len)
        cursor := state.cursor + segment.len
        report := addReports state.report (reportOf (slotsOf segment)) } := by
  obtain ⟨out, cursor, report⟩ := state
  dsimp only at hfits ⊢
  have hkeep : ∀ count, cursor + count ≤ out.length →
      out.take cursor ++ (out.drop cursor).take count ++ out.drop (cursor + count) = out := by
    intro count _
    rw [List.append_assoc, ← List.drop_drop, List.take_append_drop, List.take_append_drop]
  rw [fill_slotsOf segment _ (by rw [List.length_take, List.length_drop]; omega),
    reportOf_slotsOf]
  cases segment with
  | data samples => rfl
  | gap count => exact congrArg (Reading.mk · _ _) (hkeep count hfits).symm
  | overflow count => exact congrArg (Reading.mk · _ _) (hkeep count hfits).symm
  | underflow count => exact congrArg (Reading.mk · _ _) (hkeep count hfits).symm

/-- **All segments** of a read, one after another. -/
theorem foldl_readSegment (segments : List (RingSegment T)) (state : Reading T)
    (hfits : state.cursor + (segments.flatMap slotsOf).length ≤ state.out.length) :
    segments.foldl readSegment state =
      { out := state.out.take state.cursor ++
          fill (segments.flatMap slotsOf)
            ((state.out.drop state.cursor).take (segments.flatMap slotsOf).length) ++
            state.out.drop (state.cursor + (segments.flatMap slotsOf).length)
        cursor := state.cursor + (segments.flatMap slotsOf).length
        report := addReports state.report (reportOf (segments.flatMap slotsOf)) } := by
  induction segments generalizing state with
  | nil =>
    obtain ⟨out, cursor, ⟨overflow, copied, underflow⟩⟩ := state
    simp [fill, addReports, reportOf]
  | cons segment segments ih =>
    rw [List.flatMap_cons, List.length_append, length_slotsOf] at hfits
    have hfill : (fill (slotsOf segment)
        ((state.out.drop state.cursor).take segment.len)).length = segment.len := by
      unfold fill
      rw [List.length_zipWith, length_slotsOf, List.length_take, List.length_drop]
      omega
    have hfront : (state.out.take state.cursor ++ fill (slotsOf segment)
        ((state.out.drop state.cursor).take segment.len)).length = state.cursor + segment.len := by
      rw [List.length_append, hfill, List.length_take]
      omega
    have htaken : ((state.out.drop state.cursor).take
        (segment.len + (segments.flatMap slotsOf).length)).take segment.len =
          (state.out.drop state.cursor).take segment.len := by
      rw [List.take_take, Nat.min_eq_left (by omega)]
    have hdropped : ((state.out.drop state.cursor).take
        (segment.len + (segments.flatMap slotsOf).length)).drop segment.len =
          (state.out.drop (state.cursor + segment.len)).take (segments.flatMap slotsOf).length := by
      rw [List.drop_take, List.drop_drop, Nat.add_sub_cancel_left]
    have hlast : state.out.drop (state.cursor + (segment.len + (segments.flatMap slotsOf).length)) =
        (state.out.drop (state.cursor + segment.len)).drop (segments.flatMap slotsOf).length := by
      rw [List.drop_drop, Nat.add_assoc]
    have hrest : ∀ rest : List T, (state.out.take state.cursor ++ fill (slotsOf segment)
        ((state.out.drop state.cursor).take segment.len) ++ rest).drop
          (state.cursor + segment.len) = rest := fun rest => List.drop_left' hfront
    have hlast' : ∀ (rest : List T) (n : Nat), (state.out.take state.cursor ++
        fill (slotsOf segment) ((state.out.drop state.cursor).take segment.len) ++ rest).drop
          (state.cursor + segment.len + n) = rest.drop n := by
      intro rest n
      rw [← List.drop_drop, hrest]
    rw [List.foldl_cons, readSegment_eq state segment (by omega), ih]
    · dsimp only
      rw [List.take_left' hfront, hrest, hlast',  List.flatMap_cons, reportOf_append,
        ← addReports_assoc, List.length_append, length_slotsOf, fill_append,
        length_slotsOf, htaken, hdropped, hlast, Nat.add_assoc, List.append_assoc, List.append_assoc,
        List.append_assoc, List.append_assoc]
      rw [length_slotsOf, List.length_take, List.length_drop]
      omega
    · dsimp only
      rw [List.length_append, hfront, List.length_drop]
      omega

/-- **The copying read** fills in the samples of its positions and counts the others. -/
theorem read_spec (h : Refines r t) (out : List T) :
    (r.read out).2 = (fill (t.slots r.capacity out.length true) out,
        if (reportOf (t.slots r.capacity out.length true)).overflow = 0 ∧
            (reportOf (t.slots r.capacity out.length true)).underflow = 0 then .ok ()
        else .error (reportOf (t.slots r.capacity out.length true))) ∧
      (r.readHead + out.length < 2 ^ 64 →
        Refines (r.read out).1 { t with read := t.read + out.length }) := by
  obtain ⟨-, hall, hrefines⟩ := takeSegments_spec h out.length true (out.length + 1)
  have hslots := hall (Nat.lt_succ_self _)
  have hlength : (t.slots r.capacity out.length true).length = out.length := by
    unfold Timeline.slots
    simp
  have hsum : ((r.takeSegments out.length true (out.length + 1)).2.map RingSegment.len).sum =
      out.length := by
    have hcount := congrArg List.length hslots
    rw [hlength] at hcount
    simpa [List.length_flatMap, length_slotsOf, Function.comp_def] using hcount
  rw [hsum] at hrefines
  unfold RingBuffer.read RingBuffer.readSegments
  dsimp only
  by_cases hempty : out.length = 0
  · rw [if_pos hempty, hempty]
    obtain rfl := List.length_eq_zero_iff.mp hempty
    exact ⟨rfl, fun _ => h⟩
  · have hfold := foldl_readSegment (r.takeSegments out.length true (out.length + 1)).2
      ⟨out, 0, ⟨0, 0, 0⟩⟩ (by rw [hslots, hlength]; dsimp only; omega)
    rw [hslots, hlength] at hfold
    have hreport : addReports ⟨0, 0, 0⟩ (reportOf (t.slots r.capacity out.length true)) =
        reportOf (t.slots r.capacity out.length true) := by
      unfold addReports
      simp only [Nat.zero_add]
    have hout : out.take 0 ++ fill (t.slots r.capacity out.length true)
        ((out.drop 0).take out.length) ++ out.drop (0 + out.length) =
          fill (t.slots r.capacity out.length true) out := by
      rw [List.take_zero, List.nil_append, List.drop_zero, List.take_length, Nat.zero_add,
        List.drop_length, List.append_nil]
    rw [if_neg hempty, hfold]
    dsimp only
    rw [hreport, hout]
    refine ⟨?_, fun hroom => ?_⟩
    · split <;> rfl
    · split <;> exact hrefines hroom

/-! ## Runs -/

inductive Op (T : Type)
  | write (input : List T)
  | writeDefault (count : Nat)
  | advanceTimeline (size : Nat)
  /-- An iterator that is dropped after some calls of `next`. -/
  | takeSegments (requested : Nat) (emitUnderflow : Bool) (visits : Nat)
  | read (out : List T)
  deriving DecidableEq, Repr

/-- A ring and the timeline it stands for. -/
structure Tracked (T : Type) where
  ring : RingBuffer T
  timeline : Timeline T

def tracked [Inhabited T] (mapped : Bool) (size : Nat) : Tracked T :=
  ⟨newUnsplit mapped size, ⟨[], 0⟩⟩

def perform [Inhabited T] (r : RingBuffer T) : Op T → RingBuffer T
  | .write input => (r.write input).1
  | .writeDefault count => r.writeDefault count
  | .advanceTimeline size => r.advanceTimeline size
  | .takeSegments requested emitUnderflow visits =>
    (r.takeSegments requested emitUnderflow visits).1
  | .read out => (r.read out).1

/-- The timeline after an operation. A dropped iterator passes what it has yielded. -/
def Tracked.timelineAfter [Inhabited T] (x : Tracked T) : Op T → Timeline T
  | .write input => { x.timeline with cells := x.timeline.cells ++ input.map some }
  | .writeDefault count =>
    { x.timeline with cells := x.timeline.cells ++ List.replicate count (some default) }
  | .advanceTimeline size =>
    { x.timeline with cells := x.timeline.cells ++ List.replicate size none }
  | .takeSegments requested emitUnderflow visits =>
    { x.timeline with
      read := x.timeline.read + ((x.ring.takeSegments requested emitUnderflow visits).2.map
        RingSegment.len).sum }
  | .read out => { x.timeline with read := x.timeline.read + out.length }

def trackedStep [Inhabited T] (x : Tracked T) (op : Op T) : Option (Tracked T) :=
  some ⟨perform x.ring op, x.timelineAfter op⟩

def ringStep [Inhabited T] (r : RingBuffer T) (op : Op T) : Option (RingBuffer T) :=
  some (perform r op)

/-- The samples land on their own positions, and no head wraps. -/
def InPlace (x : Tracked T) : Op T → Prop
  | .write input =>
    x.ring.writeHead + input.length < 2 ^ 64 ∧ LandsInPlace x.ring.capacity input
  | .writeDefault count => x.ring.writeHead + count < 2 ^ 64
  | .advanceTimeline size => x.ring.writeHead + size < 2 ^ 64
  | .takeSegments requested _ _ => x.ring.readHead + requested < 2 ^ 64
  | .read out => x.ring.readHead + out.length < 2 ^ 64

/-- **One operation** in place keeps the refinement. -/
theorem refines_step [Inhabited T] {x : Tracked T} {op : Op T} (h : Refines x.ring x.timeline)
    (hop : InPlace x op) : Refines (perform x.ring op) (x.timelineAfter op) := by
  cases op with
  | write input => exact h.write hop.1 hop.2
  | writeDefault count => exact h.writeDefault hop
  | advanceTimeline size => exact h.advanceTimeline hop
  | takeSegments requested emitUnderflow visits =>
    exact (takeSegments_spec h requested emitUnderflow visits).2.2 hop
  | read out => exact (read_spec h out).2 hop

theorem refines_new [Inhabited T] (mapped : Bool) (size : Nat) :
    Refines (newUnsplit mapped size : RingBuffer T) ⟨[], 0⟩ := by
  obtain ⟨k, hk⟩ := Nat.isPowerOfTwo_nextPowerOfTwo size
  have hpos := Nat.two_pow_pos k
  refine ⟨⟨k, ?_⟩, rfl, mirrored_new _ _, sound_new _, rfl, rfl, rfl, fun p hp => ?_⟩
  · show max size.nextPowerOfTwo 1 = 2 ^ k
    omega
  · cases hp

/-- **Reads agree with the timeline**, in every run in which samples land on their own
positions: a complete read yields what the timeline has at the requested positions, a dropped
iterator a front part of it, and a copying read fills its buffer with it. -/
theorem reads_agree_with_timeline [Inhabited T] (mapped : Bool) (size : Nat) (ops : List (Op T))
    (x : Tracked T) (hrun : run trackedStep (tracked mapped size) ops = some x)
    (hplace : AllSteps trackedStep InPlace (tracked mapped size) ops) :
    run ringStep (newUnsplit mapped size) ops = some x.ring ∧
      (∀ requested emitUnderflow,
        (x.ring.readSegments requested emitUnderflow).2.flatMap slotsOf =
          x.timeline.slots x.ring.capacity requested emitUnderflow) ∧
      (∀ requested emitUnderflow visits,
        (x.ring.takeSegments requested emitUnderflow visits).2.flatMap slotsOf <+:
          x.timeline.slots x.ring.capacity requested emitUnderflow) ∧
      ∀ out, (x.ring.read out).2.1 =
        fill (x.timeline.slots x.ring.capacity out.length true) out := by
  have hrefines : Refines x.ring x.timeline := by
    refine run_invariant_of_allSteps (fun x : Tracked T => Refines x.ring x.timeline) InPlace ?_
      (refines_new mapped size) hplace hrun
    intro s op s' hs hop hstep
    obtain rfl := Option.some.inj hstep
    exact refines_step hs hop
  refine ⟨?_, fun requested emitUnderflow => ?_, fun requested emitUnderflow visits => ?_,
    fun out => ?_⟩
  · refine run_project Tracked.ring (fun s op s' hs => ?_) hrun
    obtain rfl := Option.some.inj hs
    rfl
  · exact (takeSegments_spec hrefines requested emitUnderflow _).2.1 (Nat.lt_succ_self _)
  · exact (takeSegments_spec hrefines requested emitUnderflow visits).1
  · rw [(read_spec hrefines out).1]

/-- Two samples, skipped time and two samples more, read back from a ring of eight. -/
theorem reads_agree_with_timeline_gap :
    ∃ x : Tracked Nat, run trackedStep (tracked false 8)
        [.write [1, 2], .advanceTimeline 2, .write [3, 4]] = some x ∧
      (x.ring.readSegments 8 true).2.flatMap slotsOf =
        x.timeline.slots x.ring.capacity 8 true := by
  refine ⟨_, rfl, (reads_agree_with_timeline false 8
    [.write [1, 2], .advanceTimeline 2, .write [3, 4]] _ rfl ?_).2.1 8 true⟩
  refine ⟨⟨by decide, Or.inl (by decide +kernel)⟩, fun t ht => ?_⟩
  obtain rfl := Option.some.inj ht
  refine ⟨?_, fun t ht => ?_⟩
  · show ((newUnsplit false 8 : RingBuffer Nat).write [1, 2]).1.writeHead + 2 < 2 ^ 64
    decide
  · obtain rfl := Option.some.inj ht
    exact ⟨⟨by decide, Or.inl (by decide +kernel)⟩, fun t ht => trivial⟩

/-- **A long write rotates.** Six samples in a ring of four leave the last four in the wrong
order. -/
theorem long_write_rotates :
    ∃ x : Tracked Nat, run trackedStep (tracked false 4) [.write [1, 2, 3, 4, 5, 6]] = some x ∧
      (x.ring.readSegments 6 true).2 = [.overflow 2, .data [5, 6, 3, 4]] ∧
      x.timeline.slots x.ring.capacity 6 true =
        [.overflow, .overflow, .data 3, .data 4, .data 5, .data 6] ∧
      (x.ring.readSegments 6 true).2.flatMap slotsOf ≠
        x.timeline.slots x.ring.capacity 6 true := by
  refine ⟨_, rfl, ?_, ?_, ?_⟩
  · decide +kernel
  · decide +kernel
  · decide +kernel

end Catplay.Analysis.Ring
