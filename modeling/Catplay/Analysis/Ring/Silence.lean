import Catplay.Analysis.Ring.Chunking
import Catplay.Model.Rtp.RtpConsumer

/-!
# Silence in a copying read

A copying read leaves the positions without a sample as they were and reports three counts, from
which the silence is put in afterwards: as many zeros in front as samples were lost, and zeros
from the last copied sample on. That is where the silence belongs as long as every skipped
position of the timeline lies behind all samples (`zero_fill_iff`); a gap between two samples
moves the zeros behind the second one (`gap_before_data`).
-/

set_option autoImplicit false

namespace Catplay.Analysis.Ring

open Catplay.Library.Run Catplay.Model.Ring Catplay.Model.Ring.RingBuffer Catplay.Model.Rtp

variable {T : Type}

/-! ## The positions of a read -/

/-- The positions that a complete read yields. -/
def readSlots (r : RingBuffer T) (requested : Nat) : List (Slot T) :=
  (r.readSegments requested true).2.flatMap slotsOf

theorem Twins.visit_lengths {r r' : RingBuffer T} (h : Twins r r') (visits : Nat)
    (it : RingSegments) :
    (r'.visit visits it).1.map RingSegment.len = (r.visit visits it).1.map RingSegment.len := by
  induction visits generalizing it with
  | zero => rfl
  | succ visits ih =>
    have hlen := h.segmentAt_len it.cursor it.readable
    unfold RingBuffer.visit RingBuffer.next
    by_cases hover : it.overflow > 0
    · simp only [if_pos hover, List.map_cons, ih]
    · simp only [if_neg hover]
      by_cases hread : it.readable > 0
      · simp only [if_pos hread, List.map_cons, hlen, ih]
      · simp only [if_neg hread]
        by_cases hunder : it.underflow > 0
        · simp only [if_pos hunder, List.map_cons, ih]
        · simp only [if_neg hunder, List.map_nil]

/-- **A complete read** speaks about every position that was asked for. -/
theorem Shaped.length_readSlots {r : RingBuffer T} (h : Shaped r) (requested : Nat) :
    (readSlots r requested).length = requested := by
  obtain ⟨-, hall, -⟩ :=
    takeSegments_spec h.overPages_refines requested true (requested + 1)
  have hslots := congrArg List.length (hall (Nat.lt_succ_self requested))
  have hlengths := h.overPages_twins.visit_lengths (requested + 1)
    (r.iterSegments requested true)
  have hsum : ∀ segments : List (RingSegment T),
      (segments.flatMap slotsOf).length = (segments.map RingSegment.len).sum := by
    intro segments
    simp [List.length_flatMap, length_slotsOf]
  have htimeline : ((view r).slots (overPages r).capacity requested true).length = requested := by
    unfold Timeline.slots
    simp
  rw [hsum, htimeline] at hslots
  unfold readSlots
  rw [hsum]
  show (((r.visit (requested + 1) (r.iterSegments requested true)).1).map RingSegment.len).sum = _
  rw [← hlengths, ← h.overPages_twins.iterSegments]
  exact hslots

theorem overflow_not_mem {segment : RingSegment T} (hsegment : ∀ count, segment ≠ .overflow count) :
    Slot.overflow ∉ slotsOf segment := by
  cases segment with
  | data samples =>
    intro hmem
    obtain ⟨sample, -, hsample⟩ := List.mem_map.mp hmem
    cases hsample
  | gap count => simp [slotsOf]
  | overflow count => exact absurd rfl (hsegment count)
  | underflow count => simp [slotsOf]

/-- Behind the lost samples nothing is lost. -/
theorem visit_no_overflow {r : RingBuffer T} (visits : Nat) {it : RingSegments}
    (hit : it.overflow = 0) {segment : RingSegment T} (hsegment : segment ∈ (r.visit visits it).1) :
    Slot.overflow ∉ slotsOf segment := by
  induction visits generalizing it with
  | zero => cases hsegment
  | succ visits ih =>
    unfold RingBuffer.visit RingBuffer.next at hsegment
    rw [if_neg (by omega)] at hsegment
    by_cases hread : it.readable > 0
    · rw [if_pos hread] at hsegment
      rcases List.mem_cons.mp hsegment with rfl | hrest
      · apply overflow_not_mem
        intro count
        unfold RingBuffer.segmentAt
        split
        · split <;> simp
        · simp
      · exact ih (by exact hit) hrest
    · rw [if_neg hread] at hsegment
      by_cases hunder : it.underflow > 0
      · rw [if_pos hunder] at hsegment
        rcases List.mem_cons.mp hsegment with rfl | hrest
        · exact overflow_not_mem (by simp)
        · exact ih (by exact hit) hrest
      · rw [if_neg hunder] at hsegment
        cases hsegment

/-- **The lost samples come first.** -/
theorem readSlots_overflow (r : RingBuffer T) (requested : Nat) :
    ∃ lost rest, readSlots r requested = List.replicate lost Slot.overflow ++ rest ∧
      Slot.overflow ∉ rest := by
  have hrest : ∀ (visits : Nat) (it : RingSegments), it.overflow = 0 →
      Slot.overflow ∉ (r.visit visits it).1.flatMap slotsOf := by
    intro visits it hit hmem
    obtain ⟨segment, hsegment, hslot⟩ := List.mem_flatMap.mp hmem
    exact visit_no_overflow visits hit hsegment hslot
  have hvisit : readSlots r requested =
      (r.visit (requested + 1) (r.iterSegments requested true)).1.flatMap slotsOf := rfl
  generalize r.iterSegments requested true = it at hvisit
  by_cases hlost : it.overflow > 0
  · unfold RingBuffer.visit RingBuffer.next at hvisit
    rw [if_pos hlost] at hvisit
    refine ⟨it.overflow, _, hvisit, ?_⟩
    apply hrest
    rfl
  · exact ⟨0, _, hvisit, hrest _ it (by omega)⟩

theorem countP_overflow {lost : Nat} {rest : List (Slot T)} (hrest : Slot.overflow ∉ rest) :
    (reportOf (List.replicate lost Slot.overflow ++ rest)).overflow = lost := by
  have hnone : (reportOf rest).overflow = 0 := by
    apply List.countP_eq_zero.mpr
    intro slot hslot
    cases slot with
    | overflow => exact absurd hslot hrest
    | data sample => exact Bool.false_ne_true
    | gap => exact Bool.false_ne_true
    | underflow => exact Bool.false_ne_true
  have hlost : (reportOf (List.replicate lost (Slot.overflow : Slot T))).overflow = lost := by
    unfold reportOf
    simp [List.countP_replicate]
  rw [reportOf_append]
  show (reportOf (List.replicate lost Slot.overflow)).overflow + (reportOf rest).overflow = lost
  rw [hnone, hlost]
  rfl

theorem reportOf_sum (slots : List (Slot T)) :
    (reportOf slots).overflow + (reportOf slots).copied + (reportOf slots).underflow =
      slots.length := by
  induction slots with
  | nil => rfl
  | cons slot slots ih =>
    have hcons : reportOf (slot :: slots) = addReports (reportOf [slot]) (reportOf slots) :=
      reportOf_append [slot] slots
    rw [hcons]
    unfold addReports
    cases slot <;> simp [reportOf] at ih ⊢ <;> omega

/-! ## The output -/

/-- What belongs into the output at a position. -/
def Slot.played (zero : T) : Slot T → T
  | data sample => sample
  | _ => zero

/-- The positions that are lost or have a sample, which are taken for the first ones. -/
def heard (slots : List (Slot T)) : Nat := (reportOf slots).overflow + (reportOf slots).copied

/-- **The condition.** Among the first `heard` positions, what was skipped or ran dry is silent in
the buffer already; behind them only zeros were to be played. -/
structure SilenceLast (zero : T) (slots : List (Slot T)) (out : List T) : Prop where
  stale : ∀ i, i < heard slots → slots[i]? = some .gap ∨ slots[i]? = some .underflow →
    out[i]? = some zero
  erased : ∀ i sample, heard slots ≤ i → slots[i]? = some (.data sample) → sample = zero

/-- The output of the read after its zeros. -/
def zeroed (zero : T) (slots : List (Slot T)) (out : List T) : List T :=
  List.replicate (reportOf slots).overflow zero ++
    ((fill slots out).take (heard slots)).drop (reportOf slots).overflow ++
      List.replicate (reportOf slots).underflow zero

theorem length_fill (slots : List (Slot T)) {out : List T} (hlength : slots.length = out.length) :
    (fill slots out).length = out.length := by
  unfold fill
  rw [List.length_zipWith, hlength, Nat.min_self]

theorem fillSlice_front {zero : T} {data : List T} {stop : Nat} (hstop : stop ≤ data.length) :
    fillSlice zero data 0 stop = some (List.replicate stop zero ++ data.drop stop) := by
  unfold fillSlice copyFromSlice
  rw [if_pos ⟨Nat.zero_le _, hstop⟩]
  simp

theorem fillSlice_back {zero : T} {data : List T} {start stop : Nat} (hstart : start ≤ stop)
    (hstop : stop = data.length) :
    fillSlice zero data start stop = some (data.take start ++ List.replicate (stop - start) zero) := by
  unfold fillSlice copyFromSlice
  rw [if_pos ⟨hstart, by omega⟩, List.length_replicate, List.drop_eq_nil_of_le (by omega),
    List.append_nil]

/-- **Filling in the silence** never goes out of range. -/
theorem zeroFill_eq (zero : T) {slots : List (Slot T)} {out : List T}
    (hlength : slots.length = out.length) :
    (reportOf slots).zeroFillOverflowAndUnderflow zero (fill slots out) =
      some (zeroed zero slots out) := by
  have hsum := reportOf_sum slots
  have hfill := length_fill slots hlength
  unfold XRunReport.zeroFillOverflowAndUnderflow
  rw [fillSlice_front (by omega)]
  show fillSlice zero _ _ _ = _
  rw [fillSlice_back (by omega) (by simp; omega)]
  unfold zeroed heard
  rw [List.take_append, List.length_replicate, Nat.add_sub_cancel_left,
    List.take_of_length_le (by simp), List.drop_take, Nat.add_sub_cancel_left,
    Nat.add_sub_cancel_left]

theorem getElem?_fill (slots : List (Slot T)) (out : List T) (i : Nat) :
    (fill slots out)[i]? =
      match slots[i]? with
      | some (.data sample) => out[i]?.map fun _ => sample
      | some _ => out[i]?
      | none => none := by
  unfold fill
  rw [List.getElem?_zipWith]
  cases slots[i]? with
  | none => cases out[i]? <;> rfl
  | some slot => cases slot <;> cases out[i]? <;> rfl

theorem getElem?_zeroed (zero : T) {slots : List (Slot T)} {out : List T}
    (hlength : slots.length = out.length) {i : Nat} (hi : i < out.length) :
    (zeroed zero slots out)[i]? =
      if i < (reportOf slots).overflow ∨ heard slots ≤ i then some zero
      else (fill slots out)[i]? := by
  have hsum := reportOf_sum slots
  have hfill := length_fill slots hlength
  have hheard : heard slots = (reportOf slots).overflow + (reportOf slots).copied := rfl
  unfold zeroed
  by_cases hfront : i < (reportOf slots).overflow
  · rw [if_pos (Or.inl hfront), List.append_assoc, List.getElem?_append_left (by simpa using hfront),
      List.getElem?_replicate, if_pos hfront]
  · by_cases hback : heard slots ≤ i
    · rw [if_pos (Or.inr hback), List.getElem?_append_right (by simp; omega),
        List.getElem?_replicate, if_pos (by simp; omega)]
    · rw [if_neg (by omega), List.getElem?_append_left (by simp; omega),
        List.getElem?_append_right (by simp; omega), List.getElem?_drop, List.getElem?_take,
        List.length_replicate, if_pos (by omega), Nat.add_sub_cancel' (by omega)]

/-- **Where the silence belongs.** -/
theorem zeroed_eq_played_iff (zero : T) {slots : List (Slot T)} {out : List T}
    (hlength : slots.length = out.length) {lost : Nat} {rest : List (Slot T)}
    (hslots : slots = List.replicate lost Slot.overflow ++ rest) (hrest : Slot.overflow ∉ rest) :
    zeroed zero slots out = slots.map (Slot.played zero) ↔ SilenceLast zero slots out := by
  have hlost : (reportOf slots).overflow = lost := by
    rw [hslots]
    exact countP_overflow hrest
  have hfirst : ∀ i : Nat, i < slots.length → (slots[i]? = some .overflow ↔ i < lost) := by
    intro i _
    rw [hslots]
    by_cases hi : i < lost
    · rw [List.getElem?_append_left (by simpa using hi), List.getElem?_replicate, if_pos hi]
      exact ⟨fun _ => hi, fun _ => rfl⟩
    · rw [List.getElem?_append_right (by simpa using hi)]
      exact ⟨fun h => absurd (List.mem_of_getElem? h) hrest, fun h => absurd h hi⟩
  have hsum := reportOf_sum slots
  have hheard : heard slots = (reportOf slots).overflow + (reportOf slots).copied := rfl
  have hzeroed : (zeroed zero slots out).length = slots.length := by
    unfold zeroed
    simp [length_fill slots hlength]
    omega
  constructor
  · intro heq
    have hat : ∀ i : Nat, (zeroed zero slots out)[i]? = slots[i]?.map (Slot.played zero) := by
      intro i
      rw [heq, List.getElem?_map]
    refine ⟨fun i hi hslot => ?_, fun i sample hi hslot => ?_⟩
    · have hlt : i < slots.length := by omega
      have hnot : ¬i < lost := by
        rw [← hfirst i hlt]
        rcases hslot with hslot | hslot <;> simp [hslot]
      have hhere := hat i
      rw [getElem?_zeroed zero hlength (by omega), if_neg (by omega), getElem?_fill] at hhere
      rcases hslot with hslot | hslot <;> rw [hslot] at hhere <;> exact hhere
    · have hlt : i < slots.length := by
        apply Nat.lt_of_not_le
        intro hle
        rw [List.getElem?_eq_none hle] at hslot
        cases hslot
      have hhere := hat i
      rw [getElem?_zeroed zero hlength (by omega), if_pos (Or.inr hi), hslot] at hhere
      exact (Option.some.inj hhere).symm
  · intro h
    apply List.ext_getElem?
    intro i
    by_cases hlt : i < slots.length
    · rw [getElem?_zeroed zero hlength (by omega), List.getElem?_map, hlost]
      have hout : out[i]? = some out[i] := List.getElem?_eq_getElem (by omega)
      cases hslot : slots[i]? with
      | none =>
        rw [List.getElem?_eq_none_iff] at hslot
        omega
      | some slot =>
        cases slot with
        | overflow => rw [if_pos (Or.inl ((hfirst i hlt).mp hslot))]; rfl
        | data sample =>
          have hnot : ¬i < lost := by
            rw [← hfirst i hlt, hslot]
            exact fun h => by cases h
          by_cases hback : heard slots ≤ i
          · rw [if_pos (Or.inr hback), h.erased i sample hback hslot]
            rfl
          · rw [if_neg (by omega), getElem?_fill, hslot, hout]
            rfl
        | gap =>
          by_cases hback : heard slots ≤ i
          · rw [if_pos (Or.inr hback)]
            rfl
          · split
            · rfl
            · rw [getElem?_fill, hslot]
              exact h.stale i (by omega) (Or.inl hslot)
        | underflow =>
          by_cases hback : heard slots ≤ i
          · rw [if_pos (Or.inr hback)]
            rfl
          · split
            · rfl
            · rw [getElem?_fill, hslot]
              exact h.stale i (by omega) (Or.inr hslot)
    · rw [List.getElem?_eq_none (by omega), List.getElem?_eq_none (by simpa using hlt)]

/-! ## Reading with silence -/

/-- **Counts** of a copying read, in every state of a ring. -/
theorem Shaped.read_eq {r : RingBuffer T} (h : Shaped r) (out : List T) :
    (r.read out).2 = (fill (readSlots r out.length) out,
      if (reportOf (readSlots r out.length)).overflow = 0 ∧
          (reportOf (readSlots r out.length)).underflow = 0 then .ok ()
      else .error (reportOf (readSlots r out.length))) := by
  have hlength := h.length_readSlots out.length
  by_cases hempty : out.length = 0
  · obtain rfl := List.length_eq_zero_iff.mp hempty
    have hnil : readSlots r ([] : List T).length = [] := List.length_eq_zero_iff.mp hlength
    rw [hnil]
    rfl
  · have hfold := foldl_readSegment (r.readSegments out.length true).2 ⟨out, 0, ⟨0, 0, 0⟩⟩ (by
      show 0 + (readSlots r out.length).length ≤ out.length
      omega)
    have hslots : (r.readSegments out.length true).2.flatMap slotsOf = readSlots r out.length := rfl
    have hreport : addReports ⟨0, 0, 0⟩ (reportOf (readSlots r out.length)) =
        reportOf (readSlots r out.length) := by
      unfold addReports
      simp only [Nat.zero_add]
    rw [hslots, hlength, hreport] at hfold
    have hout : out.take 0 ++ fill (readSlots r out.length) ((out.drop 0).take out.length) ++
        out.drop (0 + out.length) = fill (readSlots r out.length) out := by
      simp
    unfold RingBuffer.read
    dsimp only
    rw [if_neg hempty, hfold]
    dsimp only
    rw [hout]
    split <;> rfl

/-- **Silence in the right places.** In every state that a ring comes to, a copying read with its
zeros plays the sample of every position that has one and zero elsewhere, exactly when the
positions without a sample that are not lost lie last, up to zeros that make no difference. -/
theorem zero_fill_iff [Inhabited T] (mapped : Bool) (size : Nat) (calls : List (RingCall T))
    (r : RingBuffer T) (hrun : run performCall (newUnsplit mapped size) calls = some r) (zero : T)
    (out : List T) :
    ∃ out' complete, RtpConsumer.read zero r out = some ((r.read out).1, out', complete) ∧
      (out' = (readSlots r out.length).map (Slot.played zero) ↔
        SilenceLast zero (readSlots r out.length) out) := by
  have h := shaped_run hrun
  have hlength := h.length_readSlots out.length
  obtain ⟨lost, rest, hslots, hrest⟩ := readSlots_overflow r out.length
  have hiff := zeroed_eq_played_iff zero hlength hslots hrest
  have hread := h.read_eq out
  have hcall : r.read out = ((r.read out).1, (r.read out).2) := rfl
  rw [hread] at hcall
  unfold RtpConsumer.read
  rw [hcall]
  by_cases hall : (reportOf (readSlots r out.length)).overflow = 0 ∧
      (reportOf (readSlots r out.length)).underflow = 0
  · have hzeroed : zeroed zero (readSlots r out.length) out = fill (readSlots r out.length) out := by
      have hsum := reportOf_sum (readSlots r out.length)
      have hfill := length_fill (readSlots r out.length) hlength
      unfold zeroed heard
      rw [hall.1, hall.2, List.take_of_length_le (by omega)]
      simp
    rw [if_pos hall]
    exact ⟨_, true, rfl, hzeroed ▸ hiff⟩
  · rw [if_neg hall]
    refine ⟨zeroed zero (readSlots r out.length) out, false, ?_, hiff⟩
    show ((reportOf (readSlots r out.length)).zeroFillOverflowAndUnderflow zero
      (fill (readSlots r out.length) out)).bind _ = _
    rw [zeroFill_eq zero hlength]
    rfl

/-- Two samples and a gap behind them. -/
theorem zero_fill_iff_gap_last :
    ∃ r : RingBuffer Nat, run performCall (newUnsplit true 8)
        [.op (.write [1, 2]), .op (.advanceTimeline 2)] = some r ∧
      ∃ out' complete, RtpConsumer.read 0 r [9, 9, 9, 9] = some ((r.read [9, 9, 9, 9]).1, out', complete) ∧
        (out' = (readSlots r 4).map (Slot.played 0) ↔ SilenceLast 0 (readSlots r 4) [9, 9, 9, 9]) :=
  ⟨_, rfl, zero_fill_iff true 8 [.op (.write [1, 2]), .op (.advanceTimeline 2)] _ rfl 0 [9, 9, 9, 9]⟩

/-- **A gap before data.** The two samples behind the gap are erased, and the gap plays what was
in the buffer. -/
theorem gap_before_data :
    ∃ r : RingBuffer Nat, run performCall (newUnsplit true 8)
        [.op (.write [1, 2]), .op (.advanceTimeline 2), .op (.write [3, 4])] = some r ∧
      (r.readSegments 6 true).2 = [.data [1, 2], .gap 2, .data [3, 4]] ∧
      (RtpConsumer.read 0 r [9, 9, 9, 9, 9, 9]).map (fun result => result.2.1) =
        some [1, 2, 9, 9, 0, 0] ∧
      [1, 2, 9, 9, 0, 0] ≠ (readSlots r 6).map (Slot.played 0) := by
  refine ⟨_, rfl, ?_, ?_, ?_⟩
  · decide +kernel
  · decide +kernel
  · decide +kernel

end Catplay.Analysis.Ring
