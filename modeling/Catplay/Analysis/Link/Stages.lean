import Catplay.Analysis.Link.Packets
import Catplay.Model.Link.LinkLayer

/-!
# The stages of a transmission

`next_transmit` goes through its stages in one long function. Here each stage is given by
an equation of its own: what a link does that has failed, that has been downgraded, that
holds an iAP1 payload, or that is in the data phase (`transmitData_eq`). In the data phase
the payload is taken by `nextPayload`, which changes the queues only.
-/

set_option autoImplicit false

namespace Catplay.Analysis.Link

open Catplay.Model.Link

/-! ## Taking a payload -/

/-- The packet numbers to be reported missing are dropped (stage 3). -/
def forgetIds (l : LinkLayer) : LinkLayer :=
  { l with pendingAck := { l.pendingAck with outOfOrderIds := [] } }

/-- The link after it has taken a payload, or found none. -/
def afterDequeue (l : LinkLayer) : LinkLayer := forgetIds l.nextPayload.1

/-- The packet numbers to be reported missing play no part in the choice of a payload. -/
theorem nextPayload_forgetIds (l : LinkLayer) :
    (forgetIds l).nextPayload = (afterDequeue l, l.nextPayload.2) := by
  unfold afterDequeue forgetIds LinkLayer.nextPayload
  dsimp only
  rcases l.csm.dequeueTx with ⟨csm, _ | v⟩
  · dsimp only
    rcases l.files.dequeueTx (l.peerLsp.maxLen.toNat - Packet.packetOverhead) with ⟨files, _ | v⟩
    · dsimp only
      rcases l.ea.dequeueTx with ⟨ea, _ | v⟩ <;> rfl
    · rfl
  · rfl

/-- The choice of a payload looks at the queues and at the limit of the peer only. -/
theorem nextPayload_congr {l l' : LinkLayer} (hcsm : l'.csm = l.csm) (hfiles : l'.files = l.files)
    (hea : l'.ea = l.ea) (hlsp : l'.peerLsp = l.peerLsp) :
    l'.nextPayload.2 = l.nextPayload.2 := by
  unfold LinkLayer.nextPayload
  dsimp only
  rw [hcsm, hfiles, hea, hlsp]
  rcases l.csm.dequeueTx with ⟨csm, _ | v⟩
  · dsimp only
    rcases l.files.dequeueTx (l.peerLsp.maxLen.toNat - Packet.packetOverhead) with ⟨files, _ | v⟩
    · dsimp only
      rcases l.ea.dequeueTx with ⟨ea, _ | v⟩ <;> rfl
    · rfl
  · rfl

/-- A file session that has nothing to send stays as it is. -/
theorem filesDequeue_none (files : FileSession) (maxPayloadLen : Nat)
    (h : (files.dequeueTx maxPayloadLen).2 = none) :
    (files.dequeueTx maxPayloadLen).1 = files := by
  unfold FileSession.dequeueTx at h ⊢
  split at h
  · cases h
  · dsimp only at h ⊢
    split
    · rfl
    · rename_i hchunk
      rw [if_neg hchunk] at h
      have hnone : (files.tx.poll (maxPayloadLen - FileTransferPayload.headerOverhead)).2 = none :=
        Option.map_eq_none_iff.mp h
      have hkept : (files.tx.poll (maxPayloadLen - FileTransferPayload.headerOverhead)).1
          = files.tx := by
        unfold FileTransferTransmitter.poll at hnone ⊢
        split
        · rfl
        · rename_i id hfind
          simp only [hfind] at hnone
          have hsending := List.find?_some hfind
          cases hslot : files.tx.outgoing id with
          | none => rfl
          | some slot =>
            have hstate : slot.state = .sending := by
              simpa [hslot] using hsending
            simp [hslot, FileTransferOutgoing.pollSend, hstate] at hnone
      rw [hkept]

/-- Where no payload is taken the queues stay as they are. -/
theorem nextPayload_none {l : LinkLayer} (h : l.nextPayload.2 = none) : l.nextPayload.1 = l := by
  unfold LinkLayer.nextPayload at h ⊢
  dsimp only at h ⊢
  rcases hcsm : l.csm.dequeueTx with ⟨csm, _ | v⟩
  · simp only [hcsm] at h ⊢
    have hkept := filesDequeue_none l.files (l.peerLsp.maxLen.toNat - Packet.packetOverhead)
    rcases hfiles : l.files.dequeueTx (l.peerLsp.maxLen.toNat - Packet.packetOverhead)
      with ⟨files, _ | v⟩
    · rw [hfiles] at hkept
      obtain rfl : files = l.files := hkept rfl
      simp only [hfiles] at h ⊢
      rcases hea : l.ea.dequeueTx with ⟨ea, _ | v⟩
      · rfl
      · simp [hea] at h
    · simp [hfiles] at h
  · simp [hcsm] at h

/-- Taking a payload changes the queues only. -/
theorem nextPayload_frame (l : LinkLayer) :
    ∃ csm files ea, l.nextPayload.1 = { l with csm, files, ea } := by
  unfold LinkLayer.nextPayload
  dsimp only
  rcases l.csm.dequeueTx with ⟨csm, _ | v⟩
  · dsimp only
    rcases l.files.dequeueTx (l.peerLsp.maxLen.toNat - Packet.packetOverhead) with ⟨files, _ | v⟩
    · dsimp only
      rcases l.ea.dequeueTx with ⟨ea, _ | v⟩
      · exact ⟨l.csm, files, l.ea, rfl⟩
      · exact ⟨l.csm, files, ea, rfl⟩
    · exact ⟨l.csm, files, l.ea, rfl⟩
  · exact ⟨csm, l.files, l.ea, rfl⟩

theorem afterDequeue_frame (l : LinkLayer) :
    ∃ csm files ea, afterDequeue l = { forgetIds l with csm, files, ea } := by
  obtain ⟨csm, files, ea, hframe⟩ := nextPayload_frame l
  refine ⟨csm, files, ea, ?_⟩
  unfold afterDequeue
  rw [hframe]
  rfl

@[simp] theorem status_afterDequeue (l : LinkLayer) : (afterDequeue l).status = l.status := by
  obtain ⟨csm, files, ea, hframe⟩ := afterDequeue_frame l
  rw [hframe]
  rfl

@[simp] theorem localLsp_afterDequeue (l : LinkLayer) : (afterDequeue l).localLsp = l.localLsp := by
  obtain ⟨csm, files, ea, hframe⟩ := afterDequeue_frame l
  rw [hframe]
  rfl

@[simp] theorem peerSeq_afterDequeue (l : LinkLayer) : (afterDequeue l).peerSeq = l.peerSeq := by
  obtain ⟨csm, files, ea, hframe⟩ := afterDequeue_frame l
  rw [hframe]
  rfl

@[simp] theorem ownSeq_afterDequeue (l : LinkLayer) : (afterDequeue l).ownSeq = l.ownSeq := by
  obtain ⟨csm, files, ea, hframe⟩ := afterDequeue_frame l
  rw [hframe]
  rfl

@[simp] theorem clock_afterDequeue (l : LinkLayer) : (afterDequeue l).clock = l.clock := by
  obtain ⟨csm, files, ea, hframe⟩ := afterDequeue_frame l
  rw [hframe]
  rfl

@[simp] theorem retransmitMap_afterDequeue (l : LinkLayer) : (afterDequeue l).retransmitMap = l.retransmitMap := by
  obtain ⟨csm, files, ea, hframe⟩ := afterDequeue_frame l
  rw [hframe]
  rfl

@[simp] theorem missingPsns_afterDequeue (l : LinkLayer) : (afterDequeue l).missingPsns = l.missingPsns := by
  obtain ⟨csm, files, ea, hframe⟩ := afterDequeue_frame l
  rw [hframe]
  rfl

/-! ## The stages -/

/-- **The data phase.** A retransmission comes first, then a payload if the link is open for
one, then an empty ACK. -/
theorem transmitData_eq (l : LinkLayer) :
    l.transmitData =
      match l.nextRetransmitSeq with
      | some seq => some ((forgetIds l).retransmitOne seq)
      | none =>
        if l.isWindowWritable = true ∧ l.status = .writable then
          match l.nextPayload.2 with
          | some taken => (afterDequeue l).transmitPayload taken.1 taken.2
          | none => (forgetIds l).transmitEmptyAck
        else (forgetIds l).transmitEmptyAck := by
  unfold LinkLayer.transmitData
  extract_lets pending self
  have hself : self = forgetIds l := rfl
  clear_value self
  subst hself
  have hretransmit : (forgetIds l).nextRetransmitSeq = l.nextRetransmitSeq := rfl
  have hwindow : (forgetIds l).isWindowWritable = l.isWindowWritable := rfl
  have hstatus : (forgetIds l).status = l.status := rfl
  rw [hretransmit, hwindow, hstatus, nextPayload_forgetIds]
  cases l.nextRetransmitSeq with
  | some seq => rfl
  | none =>
    dsimp only
    have hcond : ((l.isWindowWritable && decide (l.status = .writable)) = true) =
        (l.isWindowWritable = true ∧ l.status = .writable) := by simp
    simp only [hcond]
    split
    · cases hnext : l.nextPayload.2 with
      | some taken => rfl
      | none =>
        dsimp only
        unfold afterDequeue
        rw [nextPayload_none hnext]
    · rfl

/-- An empty queue gives nothing. -/
theorem dequeueTx_empty {session : PayloadSession} (h : session.queueTx = []) :
    session.dequeueTx = (session, none) := by
  have hsession : session = { queueTx := [] } := congrArg PayloadSession.mk h
  rw [hsession]
  rfl

/-- A link that has failed does nothing. -/
theorem nextTransmit_of_error {l : LinkLayer} (h : l.isError = true) :
    l.nextTransmit = some (l, none) := by
  unfold LinkLayer.nextTransmit
  rw [if_pos h]

/-- An iAP1 payload is sent as it is, or ends an iAP2 link. -/
theorem nextTransmit_of_lingo {l : LinkLayer} (herror : l.isError = false) {body : Bytes}
    {rest : List Bytes} (h : l.lingo.queueTx = body :: rest) :
    l.nextTransmit = some (if l.status = .downgrade
      then ({ l with lingo := { queueTx := rest } }, some (.legacy body))
      else (LinkLayer.enterErrorState { l with lingo := { queueTx := rest } }
        .attemptedDowngrade, none)) := by
  have hlingo : l.lingo.dequeueTx = ({ queueTx := rest }, some body) := by
    unfold PayloadSession.dequeueTx
    rw [h]
    rfl
  unfold LinkLayer.nextTransmit
  rw [herror, hlingo]
  simp only [LinkLayer.isDowngrade, Bool.false_eq_true, if_false, decide_eq_true_eq]
  split <;> rfl

/-- A downgraded link fails when it takes an iAP2 payload. -/
theorem nextTransmit_of_downgrade {l : LinkLayer} (hstatus : l.status = .downgrade)
    (h : l.lingo.queueTx = []) :
    l.nextTransmit = some (if l.nextPayload.2.isSome
      then (l.nextPayload.1.enterErrorState .attemptedUpgrade, none) else (l, none)) := by
  have herror : l.isError = false := by
    simp [LinkLayer.isError, hstatus]
  have hdown : l.isDowngrade = true := by
    simp [LinkLayer.isDowngrade, hstatus]
  unfold LinkLayer.nextTransmit
  simp only [herror, dequeueTx_empty h, hdown, if_true, Bool.false_eq_true, if_false]
  rcases hnext : l.nextPayload with ⟨l', _ | v⟩
  · obtain rfl : l' = l := by
      have hkept := nextPayload_none (l := l) (by rw [hnext])
      rwa [hnext] at hkept
    rfl
  · rfl

/-- Any other link goes on to its iAP2 stages. -/
theorem nextTransmit_of_iap2 {l : LinkLayer} (herror : l.isError = false)
    (hstatus : l.status ≠ .downgrade) (h : l.lingo.queueTx = []) :
    l.nextTransmit = l.nextIap2Transmit := by
  have hdown : l.isDowngrade = false := by
    simp [LinkLayer.isDowngrade, hstatus]
  unfold LinkLayer.nextTransmit
  simp only [herror, dequeueTx_empty h, hdown, Bool.false_eq_true, if_false]

theorem nextIap2Transmit_of_data {l : LinkLayer} (h : l.status.isData = true) :
    l.nextIap2Transmit = l.transmitData := by
  unfold LinkLayer.nextIap2Transmit
  rw [if_neg, if_neg, if_pos h]
  · rintro hstatus
    rw [hstatus] at h
    cases h
  · rintro hstatus
    rw [hstatus] at h
    cases h

end Catplay.Analysis.Link
