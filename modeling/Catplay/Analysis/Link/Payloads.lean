import Catplay.Analysis.Link.Stages
import Catplay.Model.Link.Session

/-!
# What becomes of a queued payload

`next_transmit` takes a CSM, file or EA payload from its queue before it knows whether it
can be sent. `Dequeues` says when it does so. The payload is then put into a packet and kept,
or the link fails because of its size, exactly when the number of the peer and a session for
the payload are known and the payload fits into the 16-bit length of a packet
(`payload_sentOrReported`). Otherwise it is lost, or the program stops.
-/

set_option autoImplicit false

namespace Catplay.Analysis.Link

open Catplay.Library Catplay.Library.Run Catplay.Model.Link

/-! ## Taking a payload -/

/-- `next_transmit` takes `payload` from a queue: it is the next one, nothing of a higher
priority is due, and the link is open for it or has been downgraded. -/
structure Dequeues (l : LinkLayer) (sessionType : SessionType) (payload : Bytes) : Prop where
  running : l.isError = false
  noLegacy : l.lingo.queueTx = []
  next : l.nextPayload.2 = some (sessionType, payload)
  turn : l.status = .downgrade ∨
    (l.status = .writable ∧ l.isWindowWritable = true ∧ l.nextRetransmitSeq = none)

/-- A link that writes puts the payload it takes into a packet. -/
theorem Dequeues.transmits {l : LinkLayer} {sessionType : SessionType} {payload : Bytes}
    (h : Dequeues l sessionType payload) (hwritable : l.status = .writable) :
    l.nextTransmit = (afterDequeue l).transmitPayload sessionType payload := by
  obtain ⟨hwindow, hnone⟩ : l.isWindowWritable = true ∧ l.nextRetransmitSeq = none := by
    rcases h.turn with hdowngrade | ⟨-, hturn⟩
    · rw [hwritable] at hdowngrade
      cases hdowngrade
    · exact hturn
  have hstatus : l.status ≠ .downgrade := by
    rw [hwritable]
    decide
  have hdata : l.status.isData = true := by
    rw [hwritable]
    rfl
  rw [nextTransmit_of_iap2 h.running hstatus h.noLegacy, nextIap2Transmit_of_data hdata,
    transmitData_eq, hnone, h.next]
  exact if_pos ⟨hwindow, hwritable⟩

/-- A downgraded link fails when it takes an iAP2 payload. -/
theorem Dequeues.fails {l : LinkLayer} {sessionType : SessionType} {payload : Bytes}
    (h : Dequeues l sessionType payload) (hstatus : l.status = .downgrade) :
    l.nextTransmit = some (l.nextPayload.1.enterErrorState .attemptedUpgrade, none) := by
  rw [nextTransmit_of_downgrade hstatus h.noLegacy, h.next]
  rfl

/-! ## Sent or reported -/

/-- `next_transmit` sends the payload and keeps the packet, or fails because of its size. -/
def SentOrReported (l : LinkLayer) (payload : Bytes) : Prop :=
  ∃ l' next, l.nextTransmit = some (l', next) ∧
    ((∃ p entry, next = some (.packet p) ∧ p.payload = some payload ∧
        l'.retransmitMap p.header.seq = some entry ∧ entry.packet = p) ∨
      ∃ transmitting limit, l'.status = .error (.transmitMaxLenViolation transmitting limit))

/-- What the payload needs on its way into a packet. -/
structure Sendable (l : LinkLayer) (sessionType : SessionType) (payload : Bytes) : Prop where
  upgraded : l.status ≠ .downgrade
  peerSeq : l.peerSeq.isSome = true
  session : (l.findSessionOfType sessionType).isSome = true
  length : payload.length ≤ 65525

/-- An ACK is built exactly for a payload that a 16-bit length can count. -/
theorem newAck_isSome (ownSeq peerSeq : ModSeq8) (sessionId : UInt8) (payload : Bytes) :
    (Packet.newAck ownSeq peerSeq sessionId (some payload)).isSome = true ↔
      payload.length ≤ 65525 := by
  unfold Packet.newAck Packet.fixLength
  dsimp only
  split
  · rename_i hlong
    simp
    omega
  · rename_i hshort
    simp
    omega

/-- **Sent.** With everything it needs the payload is sent, or its size reported. -/
theorem Sendable.sentOrReported {l : LinkLayer} {sessionType : SessionType} {payload : Bytes}
    (htaken : Dequeues l sessionType payload) (h : Sendable l sessionType payload) :
    SentOrReported l payload := by
  have hwritable : l.status = .writable := by
    rcases htaken.turn with hdowngrade | hturn
    · exact absurd hdowngrade h.upgraded
    · exact hturn.1
  obtain ⟨peerSeq, hpeer⟩ := Option.isSome_iff_exists.mp h.peerSeq
  obtain ⟨session, hsession⟩ := Option.isSome_iff_exists.mp h.session
  obtain ⟨p, hp⟩ := Option.isSome_iff_exists.mp
    ((newAck_isSome l.ownSeq peerSeq session payload).mpr h.length)
  obtain ⟨hcontrol, -, -, -, hpayload⟩ := newAck_eq_some hp
  have hackable : p.isAckable = true := by
    rw [isAckable_of_ack hcontrol, hpayload]
    rfl
  have hfound : (afterDequeue l).findSessionOfType sessionType = some session := by
    simpa [LinkLayer.findSessionOfType] using hsession
  unfold SentOrReported
  rw [htaken.transmits hwritable]
  unfold LinkLayer.transmitPayload
  simp only [peerSeq_afterDequeue, hpeer, hfound, ownSeq_afterDequeue, Option.bind_eq_bind,
    Option.bind_some, hp]
  split
  · exact ⟨_, _, rfl, Or.inr ⟨_, _, rfl⟩⟩
  · have hkept : (((afterDequeue l).takeOwnSeq.prepareAckable p).retransmitMap p.header.seq) =
        some { packet := p, retryCount := 0,
               timeoutDeadline := (afterDequeue l).takeOwnSeq.retransmitDeadline } := by
      simp only [LinkLayer.prepareAckable, hackable, if_true]
      exact ByteMap.insert_self _ _ _
    exact ⟨_, _, rfl, Or.inl ⟨p, _, rfl, hpayload, hkept, rfl⟩⟩

/-- **Lost otherwise.** A payload that is sent or reported had everything it needs. -/
theorem SentOrReported.sendable {l : LinkLayer} {sessionType : SessionType} {payload : Bytes}
    (htaken : Dequeues l sessionType payload) (h : SentOrReported l payload) :
    Sendable l sessionType payload := by
  obtain ⟨l', next, hstep, hresult⟩ := h
  rcases htaken.turn with hdowngrade | ⟨hwritable, -, -⟩
  · rw [htaken.fails hdowngrade] at hstep
    obtain ⟨rfl, rfl⟩ := Prod.mk.inj (Option.some.inj hstep)
    rcases hresult with ⟨p, entry, hnext, -⟩ | ⟨transmitting, limit, hstatus⟩
    · cases hnext
    · cases hstatus
  · rw [htaken.transmits hwritable] at hstep
    unfold LinkLayer.transmitPayload at hstep
    cases hpeer : l.peerSeq with
    | none =>
      simp only [peerSeq_afterDequeue, hpeer] at hstep
      obtain ⟨rfl, rfl⟩ := Prod.mk.inj (Option.some.inj hstep)
      rcases hresult with ⟨p, entry, hnext, -⟩ | ⟨transmitting, limit, hstatus⟩
      · cases hnext
      · rw [status_afterDequeue, hwritable] at hstatus
        cases hstatus
    | some peerSeq =>
      simp only [peerSeq_afterDequeue, hpeer] at hstep
      obtain ⟨session, hsession, hstep⟩ := Option.bind_eq_some_iff.mp hstep
      obtain ⟨p, hp, -⟩ := Option.bind_eq_some_iff.mp hstep
      have hupgraded : l.status ≠ .downgrade := by
        rw [hwritable]
        decide
      have hfound : l.findSessionOfType sessionType = some session := by
        simpa [LinkLayer.findSessionOfType] using hsession
      refine ⟨hupgraded, ?_, ?_, ?_⟩
      · rw [hpeer]
        rfl
      · rw [hfound]
        rfl
      · apply (newAck_isSome (afterDequeue l).ownSeq peerSeq session payload).mp
        rw [hp]
        rfl

/-- **What becomes of a payload.** In every state, a payload that `next_transmit` takes is
sent and kept, or its size is reported, exactly when it is sendable. -/
theorem payload_sentOrReported (l : LinkLayer) (sessionType : SessionType) (payload : Bytes)
    (htaken : Dequeues l sessionType payload) :
    SentOrReported l payload ↔ Sendable l sessionType payload :=
  ⟨fun h => h.sendable htaken, fun h => h.sentOrReported htaken⟩

/-- The host that an ACK has opened before any SYN, with a CSM payload in its queue. -/
def openedWithoutNumber : List Session.Call :=
  [.read (.packet ⟨⟨9, .ACK, 0, 0x0F, 0⟩, none⟩), .enqueueCsm [1]]

/-- The state this host is in. -/
def withoutNumber : LinkLayer :=
  { LinkLayer.withClockAndLspNegotiator true 0 (SimpleLSPNegotiator .bluetooth) with
    status := .writable
    negotiation := ((Negotiation.new .bluetooth).noteLspAcceptedByPeer .bluetooth).transitionAccepted
    localLsp := .bluetooth
    peerLsp := .bluetooth
    peerAck := some 0x0F
    retransmitMap := ByteMap.empty.retain fun seq => ModSeq8.gt seq 0x0F
    csm := { queueTx := [[1]] } }

theorem run_openedWithoutNumber :
    (run Session.step (.fresh true 0 (SimpleLSPNegotiator .bluetooth)) openedWithoutNumber).map
      (·.link) = some withoutNumber := rfl

theorem dequeues_withoutNumber : Dequeues withoutNumber .control [1] :=
  ⟨rfl, rfl, rfl, Or.inr ⟨rfl, rfl, rfl⟩⟩

theorem payload_sentOrReported_withoutNumber :
    Dequeues withoutNumber .control [1] ∧
      (SentOrReported withoutNumber [1] ↔ Sendable withoutNumber .control [1]) :=
  ⟨dequeues_withoutNumber, payload_sentOrReported withoutNumber .control [1] dequeues_withoutNumber⟩

/-- A host that does not know the number of its peer drops what it takes from the queue. -/
theorem payload_dropped :
    ¬ ∀ (server : Bool) (clock : Nat) (lspNegotiator : LSPNegotiator) (calls : List Session.Call)
      (s : Session), run Session.step (.fresh server clock lspNegotiator) calls = some s →
        ∀ sessionType payload, Dequeues s.link sessionType payload →
          SentOrReported s.link payload := by
  intro h
  obtain ⟨s, hs, hlink⟩ := Option.map_eq_some_iff.mp run_openedWithoutNumber
  have hsent := h true 0 (SimpleLSPNegotiator .bluetooth) openedWithoutNumber s hs .control [1]
  rw [hlink] at hsent
  have hknown := ((hsent dequeues_withoutNumber).sendable dequeues_withoutNumber).peerSeq
  cases hknown

end Catplay.Analysis.Link
