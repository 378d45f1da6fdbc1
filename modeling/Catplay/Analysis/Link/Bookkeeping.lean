import Catplay.Analysis.Link.Reassembly
import Catplay.Analysis.Link.Stages

/-!
# What a link has on its books

Which timers and lists of a link can be in use in which phase, over all runs: packets are
kept once the negotiation has begun, and all but a SYN only when the number of the peer is
known; acknowledgements are owed, and packets reported missing, in the data phase only.
-/

set_option autoImplicit false

namespace Catplay.Analysis.Link

open Catplay.Library Catplay.Library.Run Catplay.Model.Link

/-- No acknowledgement is owed. -/
structure Calm (l : LinkLayer) : Prop where
  deadline : l.pendingAck.deadline = none
  unacked : l.pendingAck.unackedPackets = 0
  force : l.pendingAck.force = false

/-- **The books of a link.** -/
structure Sane (l : LinkLayer) : Prop where
  kept : ∀ seq p, (coreOf l).unacked seq = some p →
    (coreOf l).peerSeq.isSome = true ∨ p.header.control.isSyn = true
  early : (coreOf l).phase = .detecting ∨ (coreOf l).phase = .downgrade →
    ∀ seq, (coreOf l).unacked seq = none
  calm : (coreOf l).phase ≠ .error → (coreOf l).phase ≠ .data ∨ (coreOf l).peerSeq = none → Calm l
  missing : (coreOf l).phase ≠ .error → (coreOf l).phase ≠ .data → l.missingPsns = []

/-! ## The packets kept -/

/-- The part of the books that the core keeps. -/
structure Keeps (c : Core) : Prop where
  kept : ∀ seq p, c.unacked seq = some p →
    c.peerSeq.isSome = true ∨ p.header.control.isSyn = true
  early : c.phase = .detecting ∨ c.phase = .downgrade → ∀ seq, c.unacked seq = none

variable {c c' : Core} {p : Packet} {next : Option PacketOrDetect} {frames : List PacketOrDetect}
  {call : Session.Call} {l l' : LinkLayer}

theorem Keeps.insert (h : Keeps c) {seq : UInt8} (hunacked : c'.unacked = c.unacked.insert seq p)
    (hpeer : c'.peerSeq = c.peerSeq) (hphase : c'.phase = .negotiating ∨ c'.phase = .data)
    (hp : c.peerSeq.isSome = true ∨ p.header.control.isSyn = true) : Keeps c' := by
  refine ⟨fun k q hq => ?_, fun hearly => ?_⟩
  · rw [hunacked, ByteMap.insert_apply] at hq
    rw [hpeer]
    split at hq
    · obtain rfl := Option.some.inj hq
      exact hp
    · exact h.kept k q hq
  · rcases hphase with hphase | hphase <;> rw [hphase] at hearly <;> simp at hearly

/-- The packets kept become fewer, the number of the peer stays known, and the phase does not
go back. -/
theorem Keeps.mono (h : Keeps c)
    (hunacked : ∀ seq p, c'.unacked seq = some p → c.unacked seq = some p)
    (hpeer : c.peerSeq.isSome = true → c'.peerSeq.isSome = true)
    (hphase : c'.phase = .detecting ∨ c'.phase = .downgrade →
      c.phase = .detecting ∨ c.phase = .downgrade) : Keeps c' := by
  refine ⟨fun seq p hp => ?_, fun hearly seq => ?_⟩
  · rcases h.kept seq p (hunacked seq p hp) with hknown | hsyn
    · exact Or.inl (hpeer hknown)
    · exact Or.inr hsyn
  · by_contra hsome
    obtain ⟨p, hp⟩ := Option.ne_none_iff_exists'.mp hsome
    have hnone := h.early (hphase hearly) seq
    rw [hunacked seq p hp] at hnone
    cases hnone

theorem Keeps.transmit {taken : Option Bytes}
    (h : Keeps c) (hmove : Core.Transmits c taken c' next) : Keeps c' := by
  cases hmove with
  | idle | lose => exact h
  | legacy | detectHost | detectAccessory | dropAnswer | emptyAck =>
    exact h.mono (fun _ _ hp => hp) id id
  | fail | tooLong => exact h.mono (fun _ _ hp => hp) id (by simp)
  | finalAck => exact h.mono (fun _ _ hp => hp) id (by simp)
  | synAck peerSeq p hphase hneg hpeer hp =>
    exact h.insert rfl rfl (Or.inl hphase) (Or.inl (by rw [hpeer]; rfl))
  | syn p hserver hphase hsent hp =>
    refine h.insert rfl rfl (Or.inl hphase) (Or.inr ?_)
    rw [isSyn_iff]
    exact (newSyn_eq_some hp).1
  | retransmit seq kept p hphase hkept hp =>
    refine h.insert rfl rfl hphase ?_
    rcases hp with ⟨hsyn, rfl⟩ | ⟨-, peerSeq, hpeer, -⟩
    · exact Or.inr hsyn
    · exact Or.inl (by rw [hpeer]; rfl)
  | payload sessionType payload peerSeq session p hphase hwindow hpeer =>
    exact h.insert rfl rfl (Or.inr hphase) (Or.inl (by rw [hpeer]; rfl))

theorem Keeps.emit {takens : List Bytes}
    (h : Keeps c) (hmoves : Core.Emits c takens c' frames) : Keeps c' := by
  induction hmoves with
  | nil => exact h
  | cons hmove hrest ih => exact ih (h.transmit hmove)

theorem Keeps.receiveAck (h : Keeps c) (p : Packet) : Keeps (c.receiveAck p) := by
  refine h.mono (fun seq q hq => ?_) (fun hknown => ?_) fun hphase => ?_
  · unfold Core.receiveAck at hq
    split at hq
    · dsimp only at hq
      rw [ByteMap.retain_apply] at hq
      split at hq
      · exact hq
      · cases hq
    · exact hq
  · rw [Core.receiveAck_peerSeq]
    exact hknown
  · rw [Core.receiveAck_phase] at hphase
    exact hphase

theorem Keeps.wake (h : Keeps c) : Keeps c.wake := by
  unfold Core.wake
  split
  · exact h.mono (fun _ _ hp => hp) id (by simp)
  · exact h

theorem Keeps.advance (h : Keeps c) (p : Packet) : Keeps (c.advance p) := by
  unfold Core.advance
  split
  · exact h.mono (fun _ _ hp => hp) (fun _ => rfl) id
  · exact h

theorem Keeps.read {frame : PacketOrDetect} {delivered : List Bytes}
    (h : Keeps c) (hreads : Core.Reads c frame c' delivered) : Keeps c' := by
  cases hreads with
  | ignore | detect | legacy => exact h
  | fail | detectAnswered => exact h.mono (fun _ _ hp => hp) id (by simp)
  | downgraded body hserver hphase =>
    exact h.mono (fun _ _ hp => hp) id fun _ => Or.inl hphase
  | early p => exact h.receiveAck p
  | negotiate p _ hphase hsize hneg =>
    have hadvanced := (h.wake.receiveAck p).advance p
    cases hneg with
    | ignored => exact h.wake.receiveAck p
    | unparsed => exact hadvanced
    | exceeded => exact hadvanced.mono (fun _ _ hp => hp) id (by simp)
    | opens => exact hadvanced.mono (fun _ _ hp => hp) id (by simp [Core.opened])
    | counter | accept | copy => exact hadvanced.mono (fun _ _ hp => hp) id id
  | data p _ _ hphase hsize hdelivers =>
    obtain ⟨peerSeq, outOfOrder, rfl, hknown⟩ := hdelivers.frame
    exact (h.receiveAck p).mono (fun _ _ hp => hp) hknown id

theorem Keeps.move (h : Keeps c) (hmoves : Moves c call c' frames) : Keeps c' := by
  cases hmoves with
  | still => exact h
  | reconcile _ _ _ _ hemits => exact h.emit hemits
  | read _ _ _ hreads => exact h.read hreads
  | downgrade hphase => exact h.mono (fun _ _ hp => hp) id fun _ => hphase.symm
  | close => exact h.mono (fun _ _ hp => hp) id (by simp)

/-! ## What is owed and what is missing -/

/-- Nothing new is owed, and the same packets are reported missing. -/
def Eases (l l' : LinkLayer) : Prop := (Calm l → Calm l') ∧ l'.missingPsns = l.missingPsns

theorem Eases.refl (l : LinkLayer) : Eases l l := ⟨id, rfl⟩

theorem Eases.trans {l₁ l₂ l₃ : LinkLayer} (h₁ : Eases l₁ l₂) (h₂ : Eases l₂ l₃) : Eases l₁ l₃ :=
  ⟨fun h => h₂.1 (h₁.1 h), h₂.2.trans h₁.2⟩

/-- A change elsewhere. -/
theorem Eases.of_eq (hack : l'.pendingAck = l.pendingAck)
    (hmissing : l'.missingPsns = l.missingPsns) : Eases l l' := by
  refine ⟨fun h => ?_, hmissing⟩
  exact ⟨by rw [hack, h.deadline], by rw [hack, h.unacked], by rw [hack, h.force]⟩

theorem forgetIds_eases (l : LinkLayer) : Eases l (forgetIds l) :=
  ⟨fun h => ⟨h.deadline, h.unacked, h.force⟩, rfl⟩

theorem changeState_eases (l : LinkLayer) (state : LinkStatus) : Eases l (l.changeState state) :=
  .of_eq rfl rfl

theorem refreshDataStatus_eases (l : LinkLayer) : Eases l l.refreshDataStatus := by
  obtain hsame | ⟨next, -, -, hchange⟩ := refreshDataStatus_cases l
  · rw [hsame]
    exact .refl l
  · rw [hchange]
    exact changeState_eases l next

theorem prepareAckable_eases (l : LinkLayer) (p : Packet) : Eases l (l.prepareAckable p) := by
  unfold LinkLayer.prepareAckable
  split <;> exact .of_eq rfl rfl

theorem retransmitOne_eases (l : LinkLayer) (seq : UInt8) : Eases l (l.retransmitOne seq).1 := by
  unfold LinkLayer.retransmitOne
  split
  · exact .refl l
  · split
    · exact changeState_eases l _
    · split <;> exact .of_eq rfl rfl

theorem transmitEmptyAck_eases (h : l.transmitEmptyAck = some (l', next)) : Eases l l' := by
  unfold LinkLayer.transmitEmptyAck at h
  split at h
  · split at h
    · obtain ⟨rfl, -⟩ := Prod.mk.inj (Option.some.inj h)
      exact .refl l
    · obtain ⟨p, -, h⟩ := Option.bind_eq_some_iff.mp h
      obtain ⟨rfl, -⟩ := Prod.mk.inj (Option.some.inj h)
      exact ⟨fun _ => ⟨rfl, rfl, rfl⟩, (prepareAckable_eases l p).2⟩
  · obtain ⟨rfl, -⟩ := Prod.mk.inj (Option.some.inj h)
    exact .refl l

theorem transmitPayload_eases {sessionType : SessionType} {payload : Bytes}
    (h : l.transmitPayload sessionType payload = some (l', next)) :
    Eases l l' := by
  unfold LinkLayer.transmitPayload at h
  split at h
  · obtain ⟨rfl, -⟩ := Prod.mk.inj (Option.some.inj h)
    exact .refl l
  · obtain ⟨session, -, h⟩ := Option.bind_eq_some_iff.mp h
    obtain ⟨p, -, h⟩ := Option.bind_eq_some_iff.mp h
    dsimp only at h
    split at h
    · obtain ⟨rfl, -⟩ := Prod.mk.inj (Option.some.inj h)
      exact .of_eq rfl rfl
    · obtain ⟨rfl, -⟩ := Prod.mk.inj (Option.some.inj h)
      exact ⟨fun _ => ⟨rfl, rfl, rfl⟩, (prepareAckable_eases l.takeOwnSeq p).2⟩

theorem afterDequeue_eases (l : LinkLayer) : Eases l (afterDequeue l) := by
  obtain ⟨csm, files, ea, hframe⟩ := afterDequeue_frame l
  rw [hframe]
  exact (forgetIds_eases l).trans (.of_eq rfl rfl)

theorem transmitData_eases (h : l.transmitData = some (l', next)) : Eases l l' := by
  rw [transmitData_eq] at h
  split at h
  · rename_i seq _
    obtain rfl : l' = ((forgetIds l).retransmitOne seq).1 :=
      (congrArg Prod.fst (Option.some.inj h)).symm
    exact (forgetIds_eases l).trans (retransmitOne_eases (forgetIds l) seq)
  · split at h
    · split at h
      · exact (afterDequeue_eases l).trans (transmitPayload_eases h)
      · exact (forgetIds_eases l).trans (transmitEmptyAck_eases h)
    · exact (forgetIds_eases l).trans (transmitEmptyAck_eases h)

theorem takePending_eases
    (h : l.takePendingNegotiationTransmit = some (l', next)) : Eases l l' := by
  unfold LinkLayer.takePendingNegotiationTransmit at h
  dsimp only at h
  split at h
  · obtain ⟨p, -, h⟩ := Option.bind_eq_some_iff.mp h
    obtain ⟨rfl, -⟩ := Prod.mk.inj (Option.some.inj h)
    have hkept := prepareAckable_eases
      (LinkLayer.takeOwnSeq { l with negotiation := l.negotiation.takePendingTx.1 }) p
    exact ⟨fun hcalm => ⟨(hkept.1 ⟨hcalm.deadline, hcalm.unacked, hcalm.force⟩).deadline,
      (hkept.1 ⟨hcalm.deadline, hcalm.unacked, hcalm.force⟩).unacked,
      (hkept.1 ⟨hcalm.deadline, hcalm.unacked, hcalm.force⟩).force⟩, hkept.2⟩
  · obtain ⟨p, -, h⟩ := Option.bind_eq_some_iff.mp h
    obtain ⟨rfl, -⟩ := Prod.mk.inj (Option.some.inj h)
    exact .of_eq rfl rfl
  · obtain ⟨rfl, -⟩ := Prod.mk.inj (Option.some.inj h)
    exact .of_eq rfl rfl

theorem transmitNegotiating_eases (h : l.transmitNegotiating = some (l', next)) : Eases l l' := by
  obtain ⟨⟨l₁, taken⟩, hpending, h⟩ := Option.bind_eq_some_iff.mp h
  have hfirst := takePending_eases hpending
  cases taken with
  | some frame =>
    obtain ⟨rfl, -⟩ := Prod.mk.inj (Option.some.inj h)
    exact hfirst
  | none =>
    dsimp only at h
    split at h
    · obtain ⟨syn, -, h⟩ := Option.bind_eq_some_iff.mp h
      obtain ⟨rfl, -⟩ := Prod.mk.inj (Option.some.inj h)
      have hsent : Eases l₁ (LinkLayer.takeOwnSeq { l₁ with synTransmitted := some l₁.clock }) :=
        .of_eq rfl rfl
      exact (hfirst.trans hsent).trans (prepareAckable_eases _ syn)
    · split at h
      · rename_i seq _
        obtain rfl : l' = (l₁.retransmitOne seq).1 := (congrArg Prod.fst (Option.some.inj h)).symm
        exact hfirst.trans (retransmitOne_eases l₁ seq)
      · obtain ⟨rfl, -⟩ := Prod.mk.inj (Option.some.inj h)
        exact hfirst

theorem transmitDetecting_eases (l : LinkLayer) : Eases l l.transmitDetecting.1 := by
  unfold LinkLayer.transmitDetecting
  split
  · split
    · exact ⟨fun h => ⟨h.deadline, h.unacked, h.force⟩, rfl⟩
    · exact .refl l
  · split
    · exact .of_eq rfl rfl
    · exact .refl l

theorem nextPayload_eases (l : LinkLayer) : Eases l l.nextPayload.1 := by
  obtain ⟨csm, files, ea, hframe⟩ := nextPayload_frame l
  rw [hframe]
  exact .of_eq rfl rfl

/-- **Transmitting** never makes the link owe more. -/
theorem nextTransmit_eases (h : l.nextTransmit = some (l', next)) : Eases l l' := by
  rcases Bool.eq_false_or_eq_true l.isError with herror | herror
  · rw [nextTransmit_of_error herror] at h
    obtain ⟨rfl, -⟩ := Prod.mk.inj (Option.some.inj h)
    exact .refl l
  · cases hlingo : l.lingo.queueTx with
    | cons body rest =>
      rw [nextTransmit_of_lingo herror hlingo] at h
      split at h <;>
      · obtain ⟨rfl, -⟩ := Prod.mk.inj (Option.some.inj h)
        exact .of_eq rfl rfl
    | nil =>
      by_cases hdown : l.status = .downgrade
      · rw [nextTransmit_of_downgrade hdown hlingo] at h
        split at h
        · obtain ⟨rfl, -⟩ := Prod.mk.inj (Option.some.inj h)
          exact (nextPayload_eases l).trans (changeState_eases _ _)
        · obtain ⟨rfl, -⟩ := Prod.mk.inj (Option.some.inj h)
          exact .refl l
      · rw [nextTransmit_of_iap2 herror hdown hlingo] at h
        unfold LinkLayer.nextIap2Transmit at h
        split at h
        · obtain rfl : l' = l.transmitDetecting.1 := (congrArg Prod.fst (Option.some.inj h)).symm
          exact transmitDetecting_eases l
        · split at h
          · exact transmitNegotiating_eases h
          · split at h
            · exact transmitData_eases h
            · obtain ⟨rfl, -⟩ := Prod.mk.inj (Option.some.inj h)
              exact .refl l

theorem transmitLoop_eases {budget : Nat} {more : Bool}
    (h : LinkLayer.transmitLoop budget l = some (l', more)) : Eases l l' := by
  induction budget generalizing l with
  | zero =>
    obtain ⟨rfl, -⟩ := Prod.mk.inj (Option.some.inj h)
    exact .refl l
  | succ budget ih =>
    obtain ⟨⟨l₁, next⟩, hnext, hrest⟩ := Option.bind_eq_some_iff.mp h
    have hfirst := nextTransmit_eases hnext
    cases next with
    | none =>
      obtain ⟨rfl, -⟩ := Prod.mk.inj (Option.some.inj hrest)
      exact hfirst
    | some frame =>
      have hsent : Eases l₁ (l₁.sendEvent (.write frame)) := .of_eq rfl rfl
      exact ((hfirst.trans hsent).trans (refreshDataStatus_eases _)).trans (ih hrest)

/-! ### Reception outside of the data phase -/

theorem Calm.of_eq (h : Calm l) (hack : l'.pendingAck = l.pendingAck) :
    Calm l' :=
  ⟨by rw [hack, h.deadline], by rw [hack, h.unacked], by rw [hack, h.force]⟩

theorem readAck_books (l : LinkLayer) (p : Packet) :
    (l.readAck p).pendingAck = l.pendingAck ∧
      ((l.readAck p).missingPsns = l.missingPsns ∨ (l.readAck p).missingPsns = []) := by
  unfold LinkLayer.readAck
  dsimp only
  split
  · obtain hsame | ⟨next, -, -, hchange⟩ := refreshDataStatus_cases { l with
      peerAck := some p.header.ack, missingPsns := [],
      retransmitMap := l.retransmitMap.retain fun seq => ModSeq8.gt seq p.header.ack }
    · rw [hsame]
      exact ⟨rfl, Or.inr rfl⟩
    · rw [hchange]
      exact ⟨rfl, Or.inr rfl⟩
  · exact ⟨rfl, Or.inl rfl⟩

theorem offerCounter_books (l : LinkLayer) (counter : LSPPayload) :
    (l.offerCounter counter).pendingAck = l.pendingAck ∧
      (l.offerCounter counter).missingPsns = l.missingPsns := by
  unfold LinkLayer.offerCounter
  dsimp only
  split <;> exact ⟨rfl, rfl⟩

theorem advancePeerSeq_books (l : LinkLayer) (p : Packet) :
    (l.advancePeerSeqFromAckable p).pendingAck = l.pendingAck ∧
      (l.advancePeerSeqFromAckable p).missingPsns = l.missingPsns := by
  unfold LinkLayer.advancePeerSeqFromAckable
  split <;> exact ⟨rfl, rfl⟩

theorem onRecvNeg_books (l : LinkLayer) (p : Packet) :
    (l.onRecvNeg p).pendingAck = l.pendingAck ∧ (l.onRecvNeg p).missingPsns = l.missingPsns := by
  have hadvance := advancePeerSeq_books l p
  unfold LinkLayer.onRecvNeg
  split
  · unfold LinkLayer.onRecvNegHost
    dsimp only
    split
    · exact ⟨rfl, rfl⟩
    · split
      · exact hadvance
      · split
        · exact hadvance
        · split
          · obtain ⟨hack, hmissing⟩ := offerCounter_books (l.advancePeerSeqFromAckable p) ‹_›
            exact ⟨hack.trans hadvance.1, hmissing.trans hadvance.2⟩
          · exact hadvance
  · unfold LinkLayer.onRecvNegAccessory
    dsimp only
    split
    · exact ⟨rfl, rfl⟩
    · split
      · exact hadvance
      · split
        · obtain ⟨hack, hmissing⟩ := offerCounter_books (l.advancePeerSeqFromAckable p) ‹_›
          exact ⟨hack.trans hadvance.1, hmissing.trans hadvance.2⟩
        · exact hadvance

theorem readEak_pendingAck (l : LinkLayer) (p : Packet) :
    (l.readEak p).pendingAck = l.pendingAck := by
  unfold LinkLayer.readEak
  split
  · rename_i psns _ _ _
    obtain hsame | ⟨next, -, -, hchange⟩ := refreshDataStatus_cases { l with missingPsns := psns }
    · rw [hsame]
    · rw [hchange]
      rfl
  · rfl

/-- Outside of the data phase a packet neither makes the link owe an acknowledgement nor reports
packets missing. -/
theorem readPacket_books (hdata : l.status.isData = false) (h : l.readPacket p = some l') :
    l'.pendingAck = l.pendingAck ∧ (l'.missingPsns = l.missingPsns ∨ l'.missingPsns = []) := by
  unfold LinkLayer.readPacket at h
  split at h
  · obtain rfl := Option.some.inj h
    exact ⟨rfl, Or.inl rfl⟩
  · split at h
    · obtain rfl := Option.some.inj h
      exact ⟨rfl, Or.inl rfl⟩
    · dsimp only at h
      have hawake : ∀ l₁ : LinkLayer, l₁ = (if l.server && l.status = .detecting then
          l.changeState .negotiating else l) → l₁.status.isData = false ∧
            l₁.pendingAck = l.pendingAck ∧ l₁.missingPsns = l.missingPsns := by
        rintro l₁ rfl
        split
        · exact ⟨rfl, rfl, rfl⟩
        · exact ⟨hdata, rfl, rfl⟩
      generalize (if (l.server && decide (l.status = .detecting)) = true then
        l.changeState .negotiating else l) = l₁ at h hawake
      obtain ⟨hstill, hpending, hmissing⟩ := hawake l₁ rfl
      split at h
      · obtain rfl := Option.some.inj h
        exact ⟨hpending, Or.inl hmissing⟩
      · obtain ⟨hack, hread⟩ := readAck_books l₁ p
        rw [hmissing] at hread
        split at h
        · obtain rfl := Option.some.inj h
          obtain ⟨hneg, hnegMissing⟩ := onRecvNeg_books (l₁.readAck p) p
          rw [hnegMissing, hneg]
          exact ⟨hack.trans hpending, hread⟩
        · rw [if_neg] at h
          · obtain rfl := Option.some.inj h
            exact ⟨hack.trans hpending, hread⟩
          · rw [isData_readAck, hstill]
            simp

/-- Without a number of the peer no packet is processed. -/
theorem readPacket_unknown (hdata : l.status.isData = true)
    (hpeer : l.peerSeq = none) (h : l.readPacket p = some l') :
    l'.pendingAck = l.pendingAck := by
  by_cases hsize : p.size ≤ l.localLsp.maxLen.toNat
  · rw [readPacket_of_data hdata hsize] at h
    split at h
    · obtain rfl := Option.some.inj h
      rfl
    · have hunknown : ((l.readAck p).readEak p).peerSeq = none := by
        rw [(readEak_frame (l.readAck p) p).1, (readAck_frame l p).1, hpeer]
      have hread : (l.readAck p).readData p = some ((l.readAck p).readEak p) := by
        unfold LinkLayer.readData
        dsimp only
        split
        · rfl
        · rename_i peerSeq hbad
          rw [hunknown] at hbad
          cases hbad
      rw [hread] at h
      obtain rfl := Option.some.inj h
      rw [readEak_pendingAck, (readAck_books l p).1]
  · rw [readPacket_of_long hdata hsize] at h
    obtain rfl := Option.some.inj h
    rfl

/-- Frames other than packets change neither the deadlines nor the missing packets. -/
theorem readDetect_eases (l : LinkLayer) : Eases l l.readDetect := by
  unfold LinkLayer.readDetect
  split
  · exact changeState_eases l _
  · split
    · exact ⟨fun h => ⟨h.deadline, h.unacked, h.force⟩, rfl⟩
    · split
      · exact changeState_eases l _
      · exact .refl l

theorem readLegacy_eases (l : LinkLayer) (body : Bytes) : Eases l (l.readLegacy body) := by
  unfold LinkLayer.readLegacy
  split
  · split
    · rename_i l₁ hok
      obtain ⟨-, -, rfl⟩ := downgrade_ok hok
      split <;> exact .of_eq rfl rfl
    · exact changeState_eases l _
  · split <;> exact .of_eq rfl rfl

/-! ## Runs -/

/-- A link that has not failed, and in which the number of the peer is unknown or the data phase
has not begun, was in such a state before. -/
theorem moves_early (h : Moves c call c' frames) (herror : c'.phase ≠ .error) :
    c.phase ≠ .error ∧ (c'.phase ≠ .data → c.phase ≠ .data) ∧
      (c'.peerSeq = none → c.peerSeq = none) := by
  refine ⟨fun hbad => herror (error_absorbs h hbad).1, fun hnot hdata => ?_, fun hunknown => ?_⟩
  · rcases moves_data h hdata with hbad | hbad
    · exact hnot hbad
    · exact herror hbad
  · by_contra hknown
    have hsome : c.peerSeq.isSome = true := Option.isSome_iff_ne_none.mpr hknown
    have hkept : c'.peerSeq.isSome = true := by
      cases h with
      | still | downgrade | close => exact hsome
      | reconcile _ _ _ _ hemits =>
        rw [(emits_receiver hemits).1]
        exact hsome
      | read _ _ _ hreads =>
        cases hreads with
        | ignore | fail | detect | detectAnswered | legacy | downgraded => exact hsome
        | early p =>
          rw [Core.receiveAck_peerSeq]
          exact hsome
        | negotiate p _ hphase hsize hneg =>
          have hwake : (c.wake.receiveAck p).peerSeq.isSome = true := by
            rw [Core.receiveAck_peerSeq, Core.wake_peerSeq]
            exact hsome
          have hadvance : ((c.wake.receiveAck p).advance p).peerSeq.isSome = true := by
            unfold Core.advance
            split
            · rfl
            · exact hwake
          cases hneg with
          | ignored => exact hwake
          | unparsed | exceeded | counter | accept | copy | opens => exact hadvance
        | data p _ _ hphase hsize hdelivers =>
          obtain ⟨peerSeq, outOfOrder, rfl, hstill⟩ := hdelivers.frame
          apply hstill
          rw [Core.receiveAck_peerSeq]
          exact hsome
    rw [hunknown] at hkept
    cases hkept

/-- **One call** keeps the books. -/
theorem Sane.step {s t : Session} (hevents : s.link.events = [])
    (h : Sane s.link) (hstep : s.step call = some t) : t.link.events = [] ∧ Sane t.link := by
  obtain ⟨hevents', events, -, -, hmoves⟩ := step_moves hevents hstep
  have hkeeps := Keeps.move ⟨h.kept, h.early⟩ hmoves
  obtain ⟨l', hcall, rfl⟩ := Option.map_eq_some_iff.mp hstep
  -- what the call does to the acknowledgements owed and to the missing packets
  have hbooks : (coreOf l').phase ≠ .error →
      ((coreOf l').phase ≠ .data ∨ (coreOf l').peerSeq = none → Calm s.link → Calm l') ∧
        ((coreOf l').phase ≠ .data → s.link.missingPsns = [] → l'.missingPsns = []) := by
    intro herror
    obtain ⟨-, hdata, hpeer⟩ := moves_early hmoves herror
    have heases : Eases s.link l' →
        ((coreOf l').phase ≠ .data ∨ (coreOf l').peerSeq = none → Calm s.link → Calm l') ∧
          ((coreOf l').phase ≠ .data → s.link.missingPsns = [] → l'.missingPsns = []) :=
      fun heases => ⟨fun _ => heases.1, fun _ hmissing => heases.2.trans hmissing⟩
    cases call with
    | read frame =>
      have hrunning : s.link.isError = false := by
        rw [Bool.eq_false_iff]
        intro hbad
        exact herror (error_absorbs hmoves (isError_iff.mp hbad)).1
      have hread : s.link.read frame = some l' := hcall
      unfold LinkLayer.read at hread
      rw [if_neg (by rw [hrunning]; simp)] at hread
      cases frame with
      | detect =>
        obtain rfl := Option.some.inj hread
        exact heases (readDetect_eases s.link)
      | legacy body =>
        obtain rfl := Option.some.inj hread
        exact heases (readLegacy_eases s.link body)
      | packet p =>
        rcases Bool.eq_false_or_eq_true s.link.status.isData with hs | hs
        · have hphase : (coreOf s.link).phase = .data := phaseOf_eq_data.mpr hs
          refine ⟨fun hearly hcalm => ?_, fun hnot => absurd hphase (hdata hnot)⟩
          rcases hearly with hnot | hunknown
          · exact absurd hphase (hdata hnot)
          · exact hcalm.of_eq (readPacket_unknown hs (hpeer hunknown) hread)
        · obtain ⟨hpending, hmissing⟩ := readPacket_books hs hread
          refine ⟨fun _ hcalm => hcalm.of_eq hpending, fun _ hnone => ?_⟩
          rcases hmissing with hsame | hempty
          · exact hsame.trans hnone
          · exact hempty
    | reconcile txBudget =>
      obtain ⟨⟨l₁, more⟩, hreconcile, rfl⟩ := Option.map_eq_some_iff.mp hcall
      have hdrain : Eases s.link s.link.drainEvents := .of_eq rfl rfl
      exact heases (hdrain.trans (transmitLoop_eases hreconcile))
    | advance _ | enqueueCsm _ | enqueueEa _ | enqueueLingo _ | reserveFileTx | cancelFileTx _ =>
      obtain rfl := Option.some.inj hcall
      exact heases (.of_eq rfl rfl)
    | sendFile id fileType setupData source =>
      obtain ⟨files, -, rfl⟩ := Option.map_eq_some_iff.mp hcall
      exact heases (.of_eq rfl rfl)
    | downgrade =>
      unfold Session.callLink at hcall
      dsimp only at hcall
      split at hcall
      · rename_i l₁ hok
        obtain rfl := Option.some.inj hcall
        obtain ⟨-, -, rfl⟩ := downgrade_ok hok
        exact heases (.of_eq rfl rfl)
      · obtain rfl := Option.some.inj hcall
        exact heases (.refl _)
    | close =>
      obtain rfl := Option.some.inj hcall
      refine heases ?_
      unfold LinkLayer.close
      split
      · exact changeState_eases _ _
      · exact .refl _
  refine ⟨hevents', hkeeps.kept, hkeeps.early, fun herror hearly => ?_, fun herror hnot => ?_⟩
  · obtain ⟨hrunning, hdata, hpeer⟩ := moves_early hmoves herror
    have hbefore : (coreOf s.link).phase ≠ .data ∨ (coreOf s.link).peerSeq = none := by
      rcases hearly with hnot | hunknown
      · exact Or.inl (hdata hnot)
      · exact Or.inr (hpeer hunknown)
    have hcalm := (hbooks herror).1 hearly (h.calm hrunning hbefore)
    exact ⟨hcalm.deadline, hcalm.unacked, hcalm.force⟩
  · obtain ⟨hrunning, hdata, -⟩ := moves_early hmoves herror
    exact (hbooks herror).2 hnot (h.missing hrunning (hdata hnot))

theorem Sane.fresh (server : Bool) (clock : Nat) (lspNegotiator : LSPNegotiator) :
    Sane (.withClockAndLspNegotiator server clock lspNegotiator) :=
  ⟨fun _ _ h => (by cases h), fun _ _ => rfl, fun _ _ => ⟨rfl, rfl, rfl⟩, fun _ _ => rfl⟩

/-- **The books are kept** in every state that a link reaches. -/
theorem Sane.run {server : Bool} {clock : Nat} {lspNegotiator : LSPNegotiator}
    {calls : List Session.Call} {s : Session}
    (hrun : run Session.step (.fresh server clock lspNegotiator) calls = some s) :
    s.link.events = [] ∧ Sane s.link :=
  run_invariant (fun t : Session => t.link.events = [] ∧ Sane t.link)
    (fun _ _ _ h hstep => Sane.step h.1 h.2 hstep)
    ⟨rfl, Sane.fresh server clock lspNegotiator⟩ hrun

/-- **The books of every run**: nothing is kept while the link detects or has gone back to iAP1,
and only a SYN before the number of the peer is known; short of an error no acknowledgement is
owed then or outside the data phase, which alone reports packets as missing. -/
theorem link_books (server : Bool) (clock : Nat) (lspNegotiator : LSPNegotiator)
    (calls : List Session.Call) (s : Session)
    (hrun : run Session.step (.fresh server clock lspNegotiator) calls = some s) :
    (∀ seq entry, s.link.retransmitMap seq = some entry →
        s.link.status ≠ .detecting ∧ s.link.status ≠ .downgrade ∧
          (s.link.peerSeq.isSome = true ∨ entry.packet.header.control.isSyn = true)) ∧
      (s.link.isError = false →
        (s.link.status.isData = false ∨ s.link.peerSeq = none → Calm s.link) ∧
          (s.link.status.isData = false → s.link.missingPsns = [])) := by
  obtain ⟨-, hsane⟩ := Sane.run hrun
  refine ⟨fun seq entry hentry => ?_, fun herror => ?_⟩
  · have hkept : (coreOf s.link).unacked seq = some entry.packet :=
      congrArg (Option.map RetransmitEntry.packet) hentry
    have hlate : ∀ status, s.link.status = status →
        phaseOf status = .detecting ∨ phaseOf status = .downgrade → False := by
      rintro status rfl hearly
      rw [hsane.early hearly seq] at hkept
      cases hkept
    exact ⟨fun h => hlate _ h (.inl rfl), fun h => hlate _ h (.inr rfl), hsane.kept seq _ hkept⟩
  · have hrunning : (coreOf s.link).phase ≠ .error := fun h => by
      rw [isError_iff.mpr h] at herror
      cases herror
    have houtside : s.link.status.isData = false → (coreOf s.link).phase ≠ .data := by
      cases hstatus : s.link.status <;> simp [LinkStatus.isData, coreOf, hstatus, phaseOf]
    exact ⟨fun h => hsane.calm hrunning (h.imp_left houtside),
      fun h => hsane.missing hrunning (houtside h)⟩

/-- A host that has answered a DETECT. -/
theorem link_books_answered :
    ∃ s, run Session.step (.fresh true 0 (SimpleLSPNegotiator .bluetooth))
      [.read .detect, .reconcile 1] = some s ∧ Calm s.link :=
  ⟨_, rfl, ((link_books true 0 _ [.read .detect, .reconcile 1] _ rfl).2 rfl).1 (.inl rfl)⟩

end Catplay.Analysis.Link
