import Catplay.Model.Rtp.RtpTxPacer
import Mathlib.Tactic.Ring

/-!
# Timestamps and pacing

Distances of wrapping timestamps, and the pacer on packets in order.
-/

set_option autoImplicit false

/-!
## Wrapping timestamps and their distances

A 32-bit timestamp that is not half the circle away from another one is either before it, or
less than half the circle behind it; then `distance` says how far (`ahead_of_not_lt`).
-/

namespace Catplay.Analysis.Rtp

open Catplay.Model.Rtp

theorem toNat_half : (ModSeq.half 32).toNat = 2 ^ 31 := rfl

/-- A timestamp is never before itself. -/
theorem partialCmp_self (ts : ModSeq 32) : ts.partialCmp ts = some .eq := by
  unfold ModSeq.partialCmp
  dsimp only
  exact if_pos (BitVec.sub_self ts)

theorem lt_irrefl (ts : ModSeq 32) : ts.lt ts = false := by
  unfold ModSeq.lt
  rw [partialCmp_self]
  rfl

/-- **Ahead.** A comparable timestamp that is not before the other one is less than half the
circle behind it. -/
theorem ahead_of_not_lt {ts last : ModSeq 32} (hlt : ts.lt last = false)
    (hhalf : ts - last ≠ ModSeq.half 32) :
    ∃ n : Nat, n < 2 ^ 31 ∧ ts.distance last = (n : Int) ∧ ts = last + BitVec.ofNat 32 n := by
  have hback : ts = last + BitVec.ofNat 32 (ts - last).toNat := by
    rw [BitVec.ofNat_toNat, BitVec.setWidth_eq]
    bv_omega
  unfold ModSeq.lt ModSeq.partialCmp at hlt
  unfold ModSeq.distance ModSeq.partialCmp
  dsimp only at hlt ⊢
  by_cases hzero : ts - last = 0
  · refine ⟨0, by omega, ?_, ?_⟩
    · rw [if_pos hzero]
      rfl
    · bv_omega
  · rw [if_neg hzero, if_neg hhalf] at hlt ⊢
    by_cases hless : ts - last < ModSeq.half 32
    · refine ⟨(ts - last).toNat, ?_, ?_, hback⟩
      · rw [← toNat_half]
        exact BitVec.lt_def.mp hless
      · rw [if_pos hless]
    · rw [if_neg hless] at hlt
      cases hlt

end Catplay.Analysis.Rtp

/-!
## The pacer on packets in order

Packets that follow one another in time (`InOrder`) never fail an assertion of the pacer: it
permits a prefix of them, or says when to come back (`inspect_spec`), and takes note of the sent
ones (`commit_spec`).
-/

namespace Catplay.Analysis.Rtp

open Catplay.Model.Rtp Catplay.Model.Rtp.RtpTxPacer

/-- Packets that begin at `start` or later, each at the end of the one before it or later. -/
def InOrder (start : Nat) : List RtpPacketMeta → Prop
  | [] => True
  | packet :: packets =>
    start ≤ packet.firstTs ∧ packet.firstTs < packet.endTs ∧ InOrder packet.endTs packets

variable {packets : List RtpPacketMeta} {start : Nat} {pacer : RtpTxPacer}

theorem InOrder.positive (h : InOrder start packets) :
    ∀ packet ∈ packets, packet.firstTs < packet.endTs := by
  induction packets generalizing start with
  | nil =>
    intro packet hpacket
    cases hpacket
  | cons packet packets ih =>
    intro packet' hpacket
    obtain rfl | hlater := List.mem_cons.mp hpacket
    · exact h.2.1
    · exact ih h.2.2 packet' hlater

theorem InOrder.take (h : InOrder start packets)
    (count : Nat) : InOrder start (packets.take count) := by
  induction packets generalizing start count with
  | nil =>
    rw [List.take_nil]
    exact h
  | cons packet packets ih =>
    cases count with
    | zero => trivial
    | succ count => exact ⟨h.1, h.2.1, ih h.2.2 count⟩

/-- A packet behind all the others. -/
theorem InOrder.concat (h : InOrder start packets) {packet : RtpPacketMeta}
    (hstart : start ≤ packet.firstTs) (hends : ∀ earlier ∈ packets, earlier.endTs ≤ packet.firstTs)
    (hpositive : packet.firstTs < packet.endTs) : InOrder start (packets ++ [packet]) := by
  induction packets generalizing start with
  | nil => exact ⟨hstart, hpositive, trivial⟩
  | cons first packets ih =>
    refine ⟨h.1, h.2.1, ih h.2.2 (hends first List.mem_cons_self) fun earlier hearlier => ?_⟩
    exact hends earlier (List.mem_cons_of_mem first hearlier)

/-- The pacer has an anchor as soon as it paces the datagrams, and its tolerance is a duration. -/
structure Anchored (pacer : RtpTxPacer) : Prop where
  first : pacer.anchor = none → pacer.udpTat = none
  tolerance : pacer.udpInterval * (pacer.udpBurst - 1) < durationLimit

/-- The `expect` of a pacer whose tolerance is a duration. -/
theorem Anchored.udpTolerance (h : Anchored pacer) :
    pacer.udpTolerance = some (pacer.udpInterval * (pacer.udpBurst - 1)) := if_pos h.tolerance

theorem Anchored.udpDeadline_isSome (h : Anchored pacer) (now : Instant)
    (tat : Option Instant) : ∃ udpAt, pacer.udpDeadline now tat = some udpAt := by
  unfold RtpTxPacer.udpDeadline
  cases tat with
  | none => exact ⟨now, rfl⟩
  | some tat =>
    dsimp only
    rw [h.udpTolerance]
    exact ⟨_, rfl⟩

/-- **Inspecting** some packets permits no more than there are of them. -/
theorem inspectLoop_spec (hanchored : Anchored pacer) (now : Instant)
    (hpositive : ∀ packet ∈ packets, packet.firstTs < packet.endTs) (permits : Nat)
    (tat : Option Instant) (first : Option RtpPacketMeta) :
    ∃ decision, pacer.inspectLoop now packets permits tat first = some decision ∧
      permits ≤ decision.permits ∧ decision.permits ≤ permits + packets.length := by
  induction packets generalizing permits tat first with
  | nil => exact ⟨⟨permits, none⟩, rfl, Nat.le_refl _, Nat.le_refl _⟩
  | cons packet packets ih =>
    have hhere := hpositive packet List.mem_cons_self
    unfold inspectLoop
    rw [if_pos hhere]
    dsimp only
    split
    · exact ⟨_, rfl, Nat.le_refl _, Nat.le_add_right _ _⟩
    · rename_i mediaAt hmedia
      obtain ⟨udpAt, hudp⟩ := hanchored.udpDeadline_isSome now tat
      rw [hudp]
      dsimp only
      split
      · exact ⟨_, rfl, Nat.le_refl _, Nat.le_add_right _ _⟩
      · obtain ⟨decision, hdecision, hlow, hhigh⟩ :=
          ih (fun later hlater => hpositive later (List.mem_cons_of_mem packet hlater))
            (permits + 1) (pacer.udpAdvance now tat) (some (first.getD packet))
        refine ⟨decision, hdecision, by omega, ?_⟩
        rw [List.length_cons]
        omega

/-- Without a permit for its first packet the pacer says when to come back. -/
theorem inspectLoop_wakes (hanchored : Anchored pacer) (now : Instant) {packet : RtpPacketMeta}
    (hpositive : ∀ packet' ∈ packet :: packets, packet'.firstTs < packet'.endTs)
    {decision : PaceDecision}
    (h : pacer.inspectLoop now (packet :: packets) 0 pacer.udpTat none = some decision)
    (hnone : decision.permits = 0) : ∃ wakeAt, decision.wakeAt = some wakeAt := by
  have hhere := hpositive packet List.mem_cons_self
  have hlater := fun tat first => inspectLoop_spec hanchored now
    (fun later hlater => hpositive later (List.mem_cons_of_mem packet hlater)) 1 tat first
  unfold inspectLoop at h
  rw [if_pos hhere] at h
  dsimp only [Option.getD_none] at h
  cases hanchor : pacer.anchor with
  | none =>
    -- the first packet of all is always permitted
    have hcredit : ¬packet.endTs - packet.firstTs > pacer.initialCredit packet :=
      Nat.not_lt.mpr (Nat.le_max_right _ _)
    have hdeadline : pacer.udpDeadline now none = some now := rfl
    have hready : ¬max now now > now := Nat.not_lt.mpr (Nat.max_le.mpr ⟨Nat.le_refl _, Nat.le_refl _⟩)
    rw [hanchor, Option.isSome_none, if_neg Bool.false_ne_true, if_neg hcredit,
      hanchored.first hanchor] at h
    dsimp only at h
    rw [hdeadline] at h
    dsimp only at h
    rw [if_neg hready] at h
    obtain ⟨decision', hdecision, hlow, -⟩ := hlater (pacer.udpAdvance now none) (some packet)
    obtain rfl := Option.some.inj (hdecision.symm.trans h)
    omega
  | some anchor =>
    obtain ⟨udpAt, hudp⟩ := hanchored.udpDeadline_isSome now pacer.udpTat
    rw [hanchor, Option.isSome_some, if_pos rfl] at h
    dsimp only at h
    rw [hudp] at h
    dsimp only at h
    split at h
    · obtain rfl := Option.some.inj h
      exact ⟨_, rfl⟩
    · obtain ⟨decision', hdecision, hlow, -⟩ :=
        hlater (pacer.udpAdvance now pacer.udpTat) (some packet)
      obtain rfl := Option.some.inj (hdecision.symm.trans h)
      omega

theorem inspect_spec (hanchored : Anchored pacer) (now : Instant)
    (hpositive : ∀ packet ∈ packets, packet.firstTs < packet.endTs)
    (hsome : packets ≠ []) {maxBatch : Nat} (hbatch : 0 < maxBatch) :
    ∃ decision, pacer.inspect now packets maxBatch = some decision ∧
      decision.permits ≤ packets.length ∧
      (decision.permits = 0 → ∃ wakeAt, decision.wakeAt = some wakeAt) := by
  have htaken : ∀ packet ∈ packets.take maxBatch, packet.firstTs < packet.endTs :=
    fun packet hpacket => hpositive packet (List.mem_of_mem_take hpacket)
  obtain ⟨decision, hdecision, -, hhigh⟩ :=
    inspectLoop_spec hanchored now htaken 0 pacer.udpTat none
  refine ⟨decision, hdecision, ?_, fun hnone => ?_⟩
  · rw [List.length_take] at hhigh
    omega
  · obtain ⟨packet, packets, rfl⟩ := List.exists_cons_of_ne_nil hsome
    obtain ⟨batch, rfl⟩ : ∃ n, maxBatch = n + 1 := ⟨maxBatch - 1, by omega⟩
    rw [List.take_succ_cons] at hdecision htaken
    exact inspectLoop_wakes hanchored now htaken hdecision hnone

/-- **Committing** packets in order: the ordering assertion holds, and the packets behind them are
in order from there on. -/
theorem commit_spec (hanchored : Anchored pacer) (now : Instant)
    {sent rest : List RtpPacketMeta} (horder : InOrder (pacer.lastEndTs.getD 0) (sent ++ rest)) :
    ∃ pacer', pacer.commit now sent = some pacer' ∧ Anchored pacer' ∧
      InOrder (pacer'.lastEndTs.getD 0) rest ∧
      (pacer'.lastEndTs.getD 0 = pacer.lastEndTs.getD 0 ∨
        ∃ packet ∈ sent, pacer'.lastEndTs.getD 0 = packet.endTs) := by
  induction sent generalizing pacer with
  | nil => exact ⟨pacer, rfl, hanchored, horder, Or.inl rfl⟩
  | cons packet sent ih =>
    obtain ⟨hstart, hpositive, horder⟩ := horder
    have hbehind : ¬(pacer.lastEndTs.any fun previous => packet.firstTs < previous) = true := by
      intro hany
      cases hlast : pacer.lastEndTs with
      | none =>
        rw [hlast] at hany
        cases hany
      | some previous =>
        rw [hlast] at hstart hany
        have hbefore : packet.firstTs < previous := of_decide_eq_true hany
        have hstart' : previous ≤ packet.firstTs := hstart
        omega
    have hone : pacer.commitOne now packet = some { pacer with
        anchor := some (pacer.anchor.getD ⟨now, packet.firstTs, pacer.initialCredit packet⟩)
        udpTat := pacer.udpAdvance now pacer.udpTat
        lastEndTs := some packet.endTs } := by
      unfold commitOne
      rw [if_pos hpositive, if_neg hbehind]
    unfold commit
    rw [hone]
    obtain ⟨pacer', hcommit, hanchored', horder', hlast⟩ := @ih { pacer with
        anchor := some (pacer.anchor.getD ⟨now, packet.firstTs, pacer.initialCredit packet⟩)
        udpTat := pacer.udpAdvance now pacer.udpTat
        lastEndTs := some packet.endTs } ⟨fun hnone => (by cases hnone), hanchored.tolerance⟩ horder
    refine ⟨pacer', hcommit, hanchored', horder', Or.inr ?_⟩
    obtain hsame | ⟨later, hlater, hend⟩ := hlast
    · exact ⟨packet, List.mem_cons_self, hsame⟩
    · exact ⟨later, List.mem_cons_of_mem packet hlater, hend⟩

end Catplay.Analysis.Rtp
