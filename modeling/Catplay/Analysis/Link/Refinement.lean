import Catplay.Analysis.Link.Core
import Catplay.Analysis.Link.Packets
import Catplay.Model.Link.Session

/-!
# A link moves as its core may

The two entry points of a link are followed down to the core: a `reconcile` is a
sequence of transmissions of the core that emits the frames the link writes
(`reconcile_spec`), and a `read` is one reception that delivers the CSM payloads the
link hands out (`read_spec`).
-/

set_option autoImplicit false

namespace Catplay.Analysis.Link

open Catplay.Library Catplay.Model.Link

/-! ## What the helpers leave alone -/

/-- Neither frames nor CSM payloads were emitted. -/
def Quiet (l l' : LinkLayer) : Prop :=
  writes l'.events = writes l.events ∧ csmReads l'.events = csmReads l.events

theorem Quiet.refl (l : LinkLayer) : Quiet l l := ⟨rfl, rfl⟩

variable {l₁ l₂ l₃ l l' : LinkLayer} {next : Option PacketOrDetect} {p : Packet}

theorem Quiet.trans (h₁ : Quiet l₁ l₂) (h₂ : Quiet l₂ l₃) :
    Quiet l₁ l₃ :=
  ⟨h₂.1.trans h₁.1, h₂.2.trans h₁.2⟩

/-- A change of state tells the user and moves the phase. -/
theorem changeState_quiet (l : LinkLayer) (state : LinkStatus) : Quiet l (l.changeState state) := by
  simp [Quiet, LinkLayer.changeState, LinkLayer.sendEvent, writes, csmReads, LinkEvent.write?,
    LinkEvent.readCsm?]

@[simp] theorem coreOf_changeState (l : LinkLayer) (state : LinkStatus) :
    coreOf (l.changeState state) = { coreOf l with phase := phaseOf state } := rfl

@[simp] theorem coreOf_enterErrorState (l : LinkLayer) (error : LinkError) :
    coreOf (l.enterErrorState error) = { coreOf l with phase := .error } := rfl

theorem phaseOf_eq_data {status : LinkStatus} : phaseOf status = .data ↔ status.isData = true := by
  cases status <;> simp [phaseOf, LinkStatus.isData]

theorem nextDataStatus_isData (l : LinkLayer) : l.nextDataStatus.isData = true := by
  unfold LinkLayer.nextDataStatus
  split
  · rfl
  · split <;> rfl

/-- The refresh does nothing or moves within the data phase. -/
theorem refreshDataStatus_cases (l : LinkLayer) :
    l.refreshDataStatus = l ∨
      ∃ next : LinkStatus, l.status.isData = true ∧ next.isData = true ∧
        l.refreshDataStatus = l.changeState next := by
  unfold LinkLayer.refreshDataStatus
  by_cases hdata : l.status.isData = true
  · by_cases hnext : l.status = l.nextDataStatus
    · exact Or.inl (by simp [← hnext])
    · exact Or.inr ⟨l.nextDataStatus, hdata, nextDataStatus_isData l, by simp [hdata, hnext]⟩
  · exact Or.inl (by simp [hdata])

@[simp] theorem coreOf_refreshDataStatus (l : LinkLayer) :
    coreOf l.refreshDataStatus = coreOf l := by
  obtain hsame | ⟨next, hdata, hnext, hchange⟩ := refreshDataStatus_cases l
  · rw [hsame]
  · have hphase : (coreOf l).phase = phaseOf next :=
      (phaseOf_eq_data.mpr hdata).trans (phaseOf_eq_data.mpr hnext).symm
    rw [hchange, coreOf_changeState, ← hphase]

theorem refreshDataStatus_quiet (l : LinkLayer) : Quiet l l.refreshDataStatus := by
  obtain hsame | ⟨next, -, -, hchange⟩ := refreshDataStatus_cases l
  · rw [hsame]
    exact Quiet.refl l
  · rw [hchange]
    exact changeState_quiet l next

@[simp] theorem csm_refreshDataStatus (l : LinkLayer) : l.refreshDataStatus.csm = l.csm := by
  obtain hsame | ⟨next, -, -, hchange⟩ := refreshDataStatus_cases l
  · rw [hsame]
  · rw [hchange]
    rfl

/-- File events are neither frames nor CSM payloads. -/
theorem drainEvents_quiet (l : LinkLayer) : Quiet l l.drainEvents := by
  constructor <;>
    simp [LinkLayer.drainEvents, writes, csmReads, List.filterMap_map, Function.comp_def,
      LinkEvent.write?, LinkEvent.readCsm?]

/-- Taking a payload touches the queues only; a CSM payload leaves the front of its queue. -/
theorem nextPayload_spec (l : LinkLayer) :
    coreOf l.nextPayload.1 = coreOf l ∧ Quiet l l.nextPayload.1 ∧
      l.csm.queueTx =
        (l.nextPayload.2.bind fun x => Core.csmOnly x.1 x.2).toList
          ++ l.nextPayload.1.csm.queueTx := by
  unfold LinkLayer.nextPayload PayloadSession.dequeueTx
  cases hcsm : l.csm.queueTx with
  | cons v rest => exact ⟨rfl, Quiet.refl l, by simp [Core.csmOnly]⟩
  | nil =>
    simp only [List.head?_nil, List.tail_nil]
    cases l.files.dequeueTx (l.peerLsp.maxLen.toNat - Packet.packetOverhead) with
    | mk files payload =>
      cases payload with
      | some v => exact ⟨rfl, Quiet.refl l, by simp [Core.csmOnly, hcsm]⟩
      | none =>
        dsimp only
        cases l.ea.queueTx with
        | cons v rest => exact ⟨rfl, Quiet.refl l, by simp [Core.csmOnly, hcsm]⟩
        | nil => exact ⟨rfl, Quiet.refl l, by simp [hcsm]⟩

/-! ## Transmission -/

/-- The link emits frames by moves of its core, which take CSM payloads off its queue. -/
def TransmitsVia (l l' : LinkLayer) (nexts : List PacketOrDetect) : Prop :=
  ∃ takens, Core.Emits (coreOf l) takens (coreOf l') nexts ∧
    l.csm.queueTx = takens ++ l'.csm.queueTx ∧ Quiet l l'

theorem TransmitsVia.trans {fs₁ fs₂ : List PacketOrDetect}
    (h₁ : TransmitsVia l₁ l₂ fs₁) (h₂ : TransmitsVia l₂ l₃ fs₂) :
    TransmitsVia l₁ l₃ (fs₁ ++ fs₂) := by
  obtain ⟨ts₁, hemits₁, hqueue₁, hquiet₁⟩ := h₁
  obtain ⟨ts₂, hemits₂, hqueue₂, hquiet₂⟩ := h₂
  exact ⟨ts₁ ++ ts₂, hemits₁.trans hemits₂, by rw [hqueue₁, hqueue₂, List.append_assoc],
    hquiet₁.trans hquiet₂⟩

/-- One move that takes no payload. -/
theorem TransmitsVia.one (h : Core.Transmits (coreOf l) none (coreOf l') next)
    (hcsm : l'.csm = l.csm) (hquiet : Quiet l l') : TransmitsVia l l' next.toList :=
  ⟨[], .one h, by simp [hcsm], hquiet⟩

/-- The same for a move to a core that the new one equals. -/
theorem TransmitsVia.one_of_eq {c : Core}
    (h : Core.Transmits (coreOf l) none c next) (hcore : coreOf l' = c)
    (hcsm : l'.csm = l.csm) (hquiet : Quiet l l') : TransmitsVia l l' next.toList :=
  .one (hcore ▸ h) hcsm hquiet

/-- A change outside the core and the CSM queue. -/
theorem TransmitsVia.same (hcore : coreOf l' = coreOf l)
    (hcsm : l'.csm = l.csm) (hquiet : Quiet l l') : TransmitsVia l l' [] :=
  .one_of_eq .idle hcore hcsm hquiet

/-- A kept packet joins those that wait for an acknowledgement. -/
theorem coreOf_prepareAckable (h : p.isAckable = true) :
    coreOf (l.prepareAckable p) =
      { coreOf l with unacked := (coreOf l).unacked.insert p.header.seq p } := by
  simp only [LinkLayer.prepareAckable, h, if_true, coreOf, Core.mk.injEq, true_and, and_true]
  funext seq
  simp only [ByteMap.insert_apply]
  split <;> rfl

theorem coreOf_takeOwnSeq_prepareAckable (h : p.isAckable = true) :
    coreOf (l.takeOwnSeq.prepareAckable p) = (coreOf l).keep p := by
  rw [coreOf_prepareAckable h]
  rfl

theorem prepareAckable_quiet (l : LinkLayer) (p : Packet) : Quiet l (l.prepareAckable p) := by
  unfold LinkLayer.prepareAckable
  split <;> exact Quiet.refl l

@[simp] theorem csm_prepareAckable (l : LinkLayer) (p : Packet) :
    (l.prepareAckable p).csm = l.csm := by
  unfold LinkLayer.prepareAckable
  split <;> rfl

/-- The packet chosen for retransmission is a kept one. -/
theorem nextRetransmitSeq_kept {seq : UInt8} (h : l.nextRetransmitSeq = some seq) :
    ∃ entry, l.retransmitMap seq = some entry := by
  unfold LinkLayer.nextRetransmitSeq at h
  split at h
  · split at h
    · rename_i hkept
      obtain rfl := Option.some.inj h
      exact Option.isSome_iff_exists.mp hkept
    · cases h
  · obtain ⟨⟨q, entry⟩, hargmin, rfl⟩ := Option.map_eq_some_iff.mp h
    have hmem := List.argmin_mem hargmin
    exact ⟨entry, ByteMap.mem_entries.mp (List.mem_filter.mp hmem).1⟩

theorem restamp_eq_some {kept : Packet} (h : l.restamp kept = some p) :
    (coreOf l).Restamps kept p := by
  unfold LinkLayer.restamp at h
  split at h
  · rename_i hsyn
    obtain rfl := Option.some.inj h
    exact Or.inl ⟨hsyn, rfl⟩
  · rename_i hsyn
    obtain ⟨peerSeq, hpeer, rfl⟩ := Option.map_eq_some_iff.mp h
    exact Or.inr ⟨hsyn, peerSeq, hpeer, rfl⟩

/-- A retransmission sends a kept packet, fails, or has to wait for the peer's number. -/
theorem retransmitOne_spec {seq : UInt8} (h : l.nextRetransmitSeq = some seq)
    (hphase : (coreOf l).phase = .negotiating ∨ (coreOf l).phase = .data) :
    TransmitsVia l (l.retransmitOne seq).1 (l.retransmitOne seq).2.toList := by
  obtain ⟨entry, hentry⟩ := nextRetransmitSeq_kept h
  have hkept : (coreOf l).unacked seq = some entry.packet := by
    simp [coreOf, hentry]
  have hnotError : (coreOf l).phase ≠ .error := by
    obtain hphase | hphase := hphase <;> rw [hphase] <;> decide
  simp only [LinkLayer.retransmitOne, hentry]
  split
  · exact .one (.fail none hnotError (fun h => absurd rfl h)) rfl (changeState_quiet l _)
  · cases hstamp : l.restamp entry.packet with
    | none => exact .one .idle rfl (Quiet.refl l)
    | some p =>
      have hcore : ∀ e : RetransmitEntry, e.packet = p →
          coreOf { l with retransmitMap := l.retransmitMap.insert seq e } =
            { coreOf l with unacked := (coreOf l).unacked.insert seq p } := by
        rintro e rfl
        simp only [coreOf, Core.mk.injEq, true_and, and_true]
        funext q
        simp only [ByteMap.insert_apply]
        split <;> rfl
      refine .one ?_ rfl (Quiet.refl l)
      rw [hcore _ rfl]
      exact .retransmit seq entry.packet p hphase hkept (restamp_eq_some hstamp)

/-- Stages 0) and 1). -/
theorem transmitDetecting_spec (hphase : (coreOf l).phase = .detecting) :
    TransmitsVia l l.transmitDetecting.1 l.transmitDetecting.2.toList := by
  unfold LinkLayer.transmitDetecting
  split
  · rename_i hserver
    split
    · exact .one (.detectHost hserver hphase) rfl (Quiet.refl l)
    · exact .one .idle rfl (Quiet.refl l)
  · rename_i hserver
    have hclient : (coreOf l).server = false := Bool.eq_false_iff.mpr hserver
    split
    · exact .one (.detectAccessory hclient hphase) rfl (Quiet.refl l)
    · exact .one .idle rfl (Quiet.refl l)

/-- A pending answer is due in the two pending phases only. -/
theorem takePendingTx_cases (neg : Negotiation) :
    neg.takePendingTx = (neg, none) ∨
      (neg.phase = .offering true ∧
        neg.takePendingTx = ({ neg with phase := .offering false }, some (.synAck neg.localLsp))) ∨
      (neg.phase = .accepting true ∧
        neg.takePendingTx = ({ neg with phase := .accepting false }, some .finalAck)) := by
  unfold Negotiation.takePendingTx
  split
  · rename_i hphase
    exact Or.inr (Or.inl ⟨hphase, rfl⟩)
  · rename_i hphase
    exact Or.inr (Or.inr ⟨hphase, rfl⟩)
  · exact Or.inl rfl

/-- The pending answer is sent, or the link goes on to negotiate, at most with the answer
dropped. -/
theorem takePendingNegotiationTransmit_spec (hphase : (coreOf l).phase = .negotiating)
    (h : l.takePendingNegotiationTransmit = some (l', next)) :
    TransmitsVia l l' next.toList ∧ (next = none → (coreOf l').phase = .negotiating) := by
  unfold LinkLayer.takePendingNegotiationTransmit at h
  dsimp only at h
  split at h
  · rename_i lsp peerSeq htx hpeer
    simp only [Option.bind_eq_bind, Option.bind_eq_some_iff, Option.pure_def,
      Option.some.injEq, Prod.mk.injEq] at h
    obtain ⟨p, hp, rfl, rfl⟩ := h
    obtain htaken | ⟨hneg, htaken⟩ | ⟨-, htaken⟩ := takePendingTx_cases l.negotiation
    · simp [htaken] at htx
    · simp only [htaken, Option.some.injEq, NegotiationTx.synAck.injEq] at htx
      subst htx
      obtain ⟨hctl, -, -, hpayload⟩ := newSynAck_eq_some hp
      have hackable := isAckable_of_synAck hctl (by simp [hpayload])
      have hkept := congrArg
        (fun c : Core => { c with negotiation := c.negotiation.transitionStart })
        (coreOf_takeOwnSeq_prepareAckable
          (l := { l with negotiation := l.negotiation.takePendingTx.1 }) hackable)
      refine ⟨.one_of_eq (.synAck peerSeq p hphase hneg hpeer hp) (hkept.trans ?_)
        (csm_prepareAckable _ _) (prepareAckable_quiet _ p), nofun⟩
      rw [htaken]
      rfl
    · simp [htaken] at htx
  · rename_i peerSeq htx hpeer
    simp only [Option.bind_eq_bind, Option.bind_eq_some_iff, Option.pure_def,
      Option.some.injEq, Prod.mk.injEq] at h
    obtain ⟨p, hp, rfl, rfl⟩ := h
    obtain htaken | ⟨-, htaken⟩ | ⟨hneg, htaken⟩ := takePendingTx_cases l.negotiation
    · simp [htaken] at htx
    · simp [htaken] at htx
    · have hmove := Core.Transmits.finalAck (c := coreOf l) peerSeq p hphase hneg hpeer hp
      refine ⟨.one ?_ rfl (changeState_quiet _ _), nofun⟩
      rw [htaken]
      exact hmove
  · rename_i hsynAck hfinalAck
    obtain ⟨rfl, rfl⟩ := Prod.mk.inj (Option.some.inj h)
    refine ⟨?_, fun _ => hphase⟩
    obtain htaken | ⟨-, htaken⟩ | ⟨-, htaken⟩ := takePendingTx_cases l.negotiation
    · refine .same ?_ rfl (Quiet.refl l)
      rw [htaken]
    · refine .one (.dropAnswer hphase ?_) rfl (Quiet.refl l)
      refine Option.eq_none_iff_forall_ne_some.mpr fun peerSeq hpeer => ?_
      exact hsynAck _ peerSeq (congrArg Prod.snd htaken) hpeer
    · refine .one (.dropAnswer hphase ?_) rfl (Quiet.refl l)
      refine Option.eq_none_iff_forall_ne_some.mpr fun peerSeq hpeer => ?_
      exact hfinalAck peerSeq (congrArg Prod.snd htaken) hpeer

/-- Stage 2). -/
theorem transmitNegotiating_spec
    (hphase : (coreOf l).phase = .negotiating) (h : l.transmitNegotiating = some (l', next)) :
    TransmitsVia l l' next.toList := by
  simp only [LinkLayer.transmitNegotiating, Option.bind_eq_bind, Option.bind_eq_some_iff] at h
  obtain ⟨⟨l₁, answer⟩, hanswer, hrest⟩ := h
  obtain ⟨hvia, hnegotiating⟩ := takePendingNegotiationTransmit_spec hphase hanswer
  cases answer with
  | some answer =>
    obtain ⟨rfl, rfl⟩ := Prod.mk.inj (Option.some.inj hrest)
    exact hvia
  | none =>
    have hphase₁ := hnegotiating rfl
    suffices hsuffices : TransmitsVia l₁ l' next.toList from hvia.trans hsuffices
    dsimp only at hrest
    split at hrest
    · rename_i hfirst
      simp only [Option.bind_eq_some_iff, Option.pure_def, Option.some.injEq,
        Prod.mk.injEq] at hrest
      obtain ⟨p, hp, rfl, rfl⟩ := hrest
      obtain ⟨hclient, hunsent⟩ := Bool.and_eq_true_iff.mp hfirst
      have hserver : l₁.server = false := by simpa using hclient
      have hackable := isAckable_of_syn (newSyn_eq_some hp).1
      refine .one_of_eq (.syn p hserver hphase₁ ?_ hp)
        (coreOf_takeOwnSeq_prepareAckable hackable) (csm_prepareAckable _ _)
        (prepareAckable_quiet _ p)
      simpa [coreOf] using hunsent
    · split at hrest
      · rename_i seq hseq
        have hone := retransmitOne_spec hseq (Or.inl hphase₁)
        rwa [Option.some.inj hrest] at hone
      · obtain ⟨rfl, rfl⟩ := Prod.mk.inj (Option.some.inj hrest)
        exact .same rfl rfl (Quiet.refl _)

theorem windowWritable_of_isWindowWritable (h : l.isWindowWritable = true) :
    (coreOf l).windowWritable := by
  intro peerAck hpeer
  have hack : l.peerAck = some peerAck := hpeer
  have hle : l.ownSeq - peerAck ≤ l.peerLsp.maxOutgoing := by
    simpa [LinkLayer.isWindowWritable, hack] using h
  exact hle

/-- Stage 5), for a payload that was just taken: it is lost, too long, or sent. -/
theorem transmitPayload_spec {sessionType : SessionType} {payload : Bytes}
    (hphase : (coreOf l).phase = .data) (hwindow : (coreOf l).windowWritable)
    (h : l.transmitPayload sessionType payload = some (l', next)) :
    Core.Transmits (coreOf l) (Core.csmOnly sessionType payload) (coreOf l') next ∧
      l'.csm = l.csm ∧ Quiet l l' := by
  unfold LinkLayer.transmitPayload at h
  split at h
  · rename_i hpeer
    obtain ⟨rfl, rfl⟩ := Prod.mk.inj (Option.some.inj h)
    exact ⟨.lose _ hphase hpeer, rfl, Quiet.refl l⟩
  · rename_i peerSeq hpeer
    simp only [Option.bind_eq_bind, Option.bind_eq_some_iff] at h
    obtain ⟨session, hsession, p, hp, hrest⟩ := h
    obtain ⟨hctl, -, -, -, hpayload⟩ := newAck_eq_some hp
    split at hrest
    · rename_i hsize
      obtain ⟨rfl, rfl⟩ := Prod.mk.inj (Option.some.inj hrest)
      have hlong : l.peerLsp.maxLen.toNat < payload.length + Packet.packetOverhead := by
        rwa [Packet.size, hpayload] at hsize
      exact ⟨.tooLong sessionType payload hphase hlong, rfl, changeState_quiet _ _⟩
    · rename_i hsize
      obtain ⟨rfl, rfl⟩ := Prod.mk.inj (Option.some.inj hrest)
      have hackable : p.isAckable = true := by
        rw [isAckable_of_ack hctl, hpayload]
        rfl
      have hcore : coreOf { l.takeOwnSeq.prepareAckable p with pendingAck := .reset } =
          (coreOf l).keep p :=
        coreOf_takeOwnSeq_prepareAckable hackable
      have hmove := Core.Transmits.payload sessionType payload peerSeq session p hphase
        hwindow hpeer hsession hp (Nat.le_of_not_lt hsize)
      exact ⟨hcore ▸ hmove, csm_prepareAckable _ _, prepareAckable_quiet _ p⟩

/-- Stage 6). -/
theorem transmitEmptyAck_spec
    (hphase : (coreOf l).phase = .data) (h : l.transmitEmptyAck = some (l', next)) :
    TransmitsVia l l' next.toList := by
  unfold LinkLayer.transmitEmptyAck at h
  split at h
  · split at h
    · obtain ⟨rfl, rfl⟩ := Prod.mk.inj (Option.some.inj h)
      exact .same rfl rfl (Quiet.refl l)
    · rename_i peerSeq hpeer
      simp only [Option.bind_eq_bind, Option.bind_eq_some_iff] at h
      obtain ⟨p, hp, hrest⟩ := h
      obtain ⟨rfl, rfl⟩ := Prod.mk.inj (Option.some.inj hrest)
      obtain ⟨hctl, -, -, -, hpayload⟩ := newAck_eq_some hp
      have hnot : p.isAckable = false := by
        rw [isAckable_of_ack hctl, hpayload]
        rfl
      have hsame : l.prepareAckable p = l := by
        simp [LinkLayer.prepareAckable, hnot]
      rw [hsame]
      exact .one (.emptyAck peerSeq p hphase hpeer hp) rfl (Quiet.refl l)
  · obtain ⟨rfl, rfl⟩ := Prod.mk.inj (Option.some.inj h)
    exact .same rfl rfl (Quiet.refl l)

/-- Stages 3) to 6). -/
theorem transmitData_spec
    (hphase : (coreOf l).phase = .data) (h : l.transmitData = some (l', next)) :
    TransmitsVia l l' next.toList := by
  unfold LinkLayer.transmitData at h
  set l₁ : LinkLayer := { l with pendingAck := { l.pendingAck with outOfOrderIds := [] } }
  have hphase₁ : (coreOf l₁).phase = .data := hphase
  have hclear : TransmitsVia l l₁ [] := .same rfl rfl (Quiet.refl l)
  suffices hsuffices : TransmitsVia l₁ l' next.toList from hclear.trans hsuffices
  dsimp only at h
  split at h
  · rename_i seq hseq
    have hone := retransmitOne_spec hseq (Or.inr hphase₁)
    rwa [Option.some.inj h] at hone
  · split at h
    · rename_i hwritable
      obtain ⟨hcore, hquiet, hqueue⟩ := nextPayload_spec l₁
      split at h
      · rename_i l₂ sessionType payload htaken
        simp only [htaken] at hcore hquiet hqueue
        have hwindow : (coreOf l₂).windowWritable := by
          rw [hcore]
          exact windowWritable_of_isWindowWritable (Bool.and_eq_true_iff.mp hwritable).1
        obtain ⟨hmove, hcsm, hquiet₂⟩ :=
          transmitPayload_spec (hcore ▸ hphase₁) hwindow h
        refine ⟨_, .one (hcore ▸ hmove), ?_, hquiet.trans hquiet₂⟩
        rw [hqueue, hcsm]
        rfl
      · rename_i l₂ htaken
        simp only [htaken] at hcore hquiet hqueue
        have hnothing : TransmitsVia l₁ l₂ [] :=
          ⟨[], by rw [hcore]; exact .nil _, hqueue, hquiet⟩
        exact hnothing.trans (transmitEmptyAck_spec (hcore ▸ hphase₁) h)
    · exact transmitEmptyAck_spec hphase₁ h

/-- An iAP2 frame. -/
theorem nextIap2Transmit_spec
    (h : l.nextIap2Transmit = some (l', next)) : TransmitsVia l l' next.toList := by
  unfold LinkLayer.nextIap2Transmit at h
  split at h
  · rename_i hstatus
    have hspec := transmitDetecting_spec (l := l) (by simp [coreOf, hstatus, phaseOf])
    rwa [Option.some.inj h] at hspec
  · split at h
    · rename_i hstatus
      exact transmitNegotiating_spec (by simp [coreOf, hstatus, phaseOf]) h
    · split at h
      · rename_i hdata
        exact transmitData_spec (phaseOf_eq_data.mpr hdata) h
      · obtain ⟨rfl, rfl⟩ := Prod.mk.inj (Option.some.inj h)
        exact .same rfl rfl (Quiet.refl l)

theorem isError_iff : l.isError = true ↔ (coreOf l).phase = .error := by
  cases hstatus : l.status <;> simp [LinkLayer.isError, coreOf, hstatus, phaseOf]

theorem isDowngrade_iff :
    l.isDowngrade = true ↔ (coreOf l).phase = .downgrade := by
  cases hstatus : l.status <;> simp [LinkLayer.isDowngrade, coreOf, hstatus, phaseOf]

/-- **One frame.** `next_transmit` is a sequence of moves of the core. -/
theorem nextTransmit_spec
    (h : l.nextTransmit = some (l', next)) : TransmitsVia l l' next.toList := by
  unfold LinkLayer.nextTransmit at h
  split at h
  · obtain ⟨rfl, rfl⟩ := Prod.mk.inj (Option.some.inj h)
    exact .same rfl rfl (Quiet.refl l)
  · rename_i herror
    have hnotError : (coreOf l).phase ≠ .error := fun hphase => herror (isError_iff.mpr hphase)
    split at h
    · rename_i lingo body hlingo
      dsimp only at h
      split at h
      · rename_i hdowngrade
        obtain ⟨rfl, rfl⟩ := Prod.mk.inj (Option.some.inj h)
        exact .one (.legacy body (isDowngrade_iff.mp hdowngrade)) rfl (Quiet.refl l)
      · obtain ⟨rfl, rfl⟩ := Prod.mk.inj (Option.some.inj h)
        exact .one (.fail none hnotError (fun hnone => absurd rfl hnone)) rfl
          (changeState_quiet _ _)
    · split at h
      · rename_i hdowngrade
        have hphase := isDowngrade_iff.mp hdowngrade
        obtain ⟨hcore, hquiet, hqueue⟩ := nextPayload_spec l
        split at h
        · rename_i l₁ taken htaken
          simp only [htaken, Option.bind_some] at hcore hquiet hqueue
          obtain ⟨rfl, rfl⟩ := Prod.mk.inj (Option.some.inj h)
          have hmove := Core.Transmits.fail (c := coreOf l) (Core.csmOnly taken.1 taken.2)
            hnotError (fun _ => hphase)
          rw [← hcore] at hmove
          refine ⟨_, ?_, hqueue, hquiet.trans (changeState_quiet _ _)⟩
          rw [← hcore]
          exact .one hmove
        · rename_i l₁ htaken
          simp only [htaken] at hcore hquiet hqueue
          obtain ⟨rfl, rfl⟩ := Prod.mk.inj (Option.some.inj h)
          exact ⟨[], by rw [hcore]; exact .nil _, hqueue, hquiet⟩
      · exact nextIap2Transmit_spec h

/-! ## Reconciling -/

/-- The link emits frames by moves of its core and writes them. -/
def WritesVia (l l' : LinkLayer) (nexts : List PacketOrDetect) : Prop :=
  ∃ takens, Core.Emits (coreOf l) takens (coreOf l') nexts ∧
    l.csm.queueTx = takens ++ l'.csm.queueTx ∧
    writes l'.events = writes l.events ++ nexts ∧ csmReads l'.events = csmReads l.events

/-- The frame that was chosen is written, and the status refreshed. -/
theorem TransmitsVia.write {next : PacketOrDetect} (h : TransmitsVia l l' [next]) :
    WritesVia l (l'.sendEvent (.write next)).refreshDataStatus [next] := by
  obtain ⟨takens, hemits, hqueue, hwrites, hreads⟩ := h
  obtain ⟨hwrites', hreads'⟩ := refreshDataStatus_quiet (l'.sendEvent (.write next))
  refine ⟨takens, ?_, ?_, ?_, ?_⟩
  · rw [coreOf_refreshDataStatus]
    exact hemits
  · rw [csm_refreshDataStatus]
    exact hqueue
  · rw [hwrites', ← hwrites]
    simp [LinkLayer.sendEvent, writes, LinkEvent.write?]
  · rw [hreads', ← hreads]
    simp [LinkLayer.sendEvent, csmReads, LinkEvent.readCsm?]

theorem WritesVia.trans {fs₁ fs₂ : List PacketOrDetect}
    (h₁ : WritesVia l₁ l₂ fs₁) (h₂ : WritesVia l₂ l₃ fs₂) : WritesVia l₁ l₃ (fs₁ ++ fs₂) := by
  obtain ⟨ts₁, hemits₁, hqueue₁, hwrites₁, hreads₁⟩ := h₁
  obtain ⟨ts₂, hemits₂, hqueue₂, hwrites₂, hreads₂⟩ := h₂
  exact ⟨ts₁ ++ ts₂, hemits₁.trans hemits₂, by rw [hqueue₁, hqueue₂, List.append_assoc],
    by rw [hwrites₂, hwrites₁, List.append_assoc], hreads₂.trans hreads₁⟩

/-- The loop of `reconcile`, by induction on its budget. -/
theorem transmitLoop_spec {budget : Nat} {more : Bool}
    (h : LinkLayer.transmitLoop budget l = some (l', more)) : ∃ nexts, WritesVia l l' nexts := by
  induction budget generalizing l with
  | zero =>
    obtain ⟨rfl, rfl⟩ := Prod.mk.inj (Option.some.inj h)
    exact ⟨[], [], .nil _, rfl, by simp, rfl⟩
  | succ budget ih =>
    simp only [LinkLayer.transmitLoop, Option.bind_eq_bind, Option.bind_eq_some_iff] at h
    obtain ⟨⟨l₁, next⟩, hnext, hrest⟩ := h
    have hvia := nextTransmit_spec hnext
    cases next with
    | none =>
      obtain ⟨rfl, rfl⟩ := Prod.mk.inj (Option.some.inj hrest)
      obtain ⟨takens, hemits, hqueue, hwrites, hreads⟩ := hvia
      exact ⟨[], takens, hemits, hqueue, by simp [hwrites], hreads⟩
    | some next =>
      obtain ⟨nexts, hwrites⟩ := ih hrest
      exact ⟨next :: nexts, hvia.write.trans hwrites⟩

/-- **Reconciling.** A `reconcile` of a link whose events were taken is a sequence of moves
of its core; it writes the frames they emit and hands out nothing. -/
theorem reconcile_spec {txBudget : Nat} {more : Bool}
    (hevents : l.events = []) (h : l.reconcile txBudget = some (l', more)) :
    ∃ takens, Core.Emits (coreOf l) takens (coreOf l') (writes l'.events) ∧
      l.csm.queueTx = takens ++ l'.csm.queueTx ∧ csmReads l'.events = [] := by
  obtain ⟨nexts, takens, hemits, hqueue, hwrites, hreads⟩ := transmitLoop_spec h
  obtain ⟨hquietWrites, hquietReads⟩ := drainEvents_quiet l
  have hno : writes l.events = [] ∧ csmReads l.events = [] := by
    rw [hevents]
    exact ⟨rfl, rfl⟩
  refine ⟨takens, ?_, hqueue, by rw [hreads, hquietReads, hno.2]⟩
  rw [hwrites, hquietWrites, hno.1]
  exact hemits

/-! ## Reading: acknowledgements and negotiation -/

/-- The CSM queue stays, no frame is written, and the payloads are handed out. -/
def HandsOut (l l' : LinkLayer) (payloads : List Bytes) : Prop :=
  l'.csm = l.csm ∧ writes l'.events = writes l.events ∧
    csmReads l'.events = csmReads l.events ++ payloads

theorem HandsOut.of_quiet (hcsm : l'.csm = l.csm) (h : Quiet l l') :
    HandsOut l l' [] :=
  ⟨hcsm, h.1, by rw [h.2, List.append_nil]⟩

theorem HandsOut.trans {ps₁ ps₂ : List Bytes}
    (h₁ : HandsOut l₁ l₂ ps₁) (h₂ : HandsOut l₂ l₃ ps₂) : HandsOut l₁ l₃ (ps₁ ++ ps₂) :=
  ⟨h₂.1.trans h₁.1, h₂.2.1.trans h₁.2.1, by rw [h₂.2.2, h₁.2.2, List.append_assoc]⟩

theorem changeState_handsOut (l : LinkLayer) (state : LinkStatus) :
    HandsOut l (l.changeState state) [] :=
  .of_quiet rfl (changeState_quiet l state)

/-- Reading an acknowledgement number. -/
theorem readAck_spec (l : LinkLayer) (p : Packet) :
    coreOf (l.readAck p) = (coreOf l).receiveAck p ∧ HandsOut l (l.readAck p) [] := by
  have hcond : (p.header.control.isAnyAck && l.isNewerAck p.header.ack) = true ↔
      (p.header.control.isAnyAck = true ∧ ∀ peerAck, (coreOf l).peerAck = some peerAck →
        ModSeq8.gt p.header.ack peerAck = true) := by
    cases hack : l.peerAck <;> simp [coreOf, LinkLayer.isNewerAck, hack]
  unfold LinkLayer.readAck Core.receiveAck
  dsimp only
  by_cases hnewer : p.header.control.isAnyAck = true ∧ ∀ peerAck,
      (coreOf l).peerAck = some peerAck → ModSeq8.gt p.header.ack peerAck = true
  · rw [if_pos hnewer, if_pos (hcond.mpr hnewer)]
    refine ⟨?_, .of_quiet (csm_refreshDataStatus _) (refreshDataStatus_quiet _)⟩
    rw [coreOf_refreshDataStatus]
    simp only [coreOf, Core.mk.injEq, true_and, and_true]
    funext seq
    simp only [ByteMap.retain_apply]
    split <;> rfl
  · rw [if_neg hnewer, if_neg fun h => hnewer (hcond.mp h)]
    exact ⟨rfl, .of_quiet rfl (Quiet.refl l)⟩

/-- Reading an EAK touches what is to be retransmitted next only. -/
theorem readEak_spec (l : LinkLayer) (p : Packet) :
    coreOf (l.readEak p) = coreOf l ∧ HandsOut l (l.readEak p) [] := by
  unfold LinkLayer.readEak
  split
  · refine ⟨?_, .of_quiet (csm_refreshDataStatus _) (refreshDataStatus_quiet _)⟩
    rw [coreOf_refreshDataStatus]
    rfl
  · exact ⟨rfl, .of_quiet rfl (Quiet.refl l)⟩

theorem coreOf_advancePeerSeq (l : LinkLayer) (p : Packet) :
    coreOf (l.advancePeerSeqFromAckable p) = (coreOf l).advance p := by
  unfold LinkLayer.advancePeerSeqFromAckable Core.advance
  split <;> rfl

theorem advancePeerSeq_handsOut (l : LinkLayer) (p : Packet) :
    HandsOut l (l.advancePeerSeqFromAckable p) [] := by
  unfold LinkLayer.advancePeerSeqFromAckable
  split <;> exact .of_quiet rfl (Quiet.refl l)

/-- A counter-offer goes out in the next SYN+ACK, or there were too many. -/
theorem offerCounter_spec (l : LinkLayer) (counter : LSPPayload) :
    HandsOut l (l.offerCounter counter) [] ∧
      ((l.negotiation.negotiationCounter + 1 < 10 ∧
          coreOf (l.offerCounter counter) = (coreOf l).offering counter) ∨
        coreOf (l.offerCounter counter) =
          { coreOf l with negotiation := l.negotiation.incrementCounter, phase := .error }) := by
  unfold LinkLayer.offerCounter
  dsimp only
  split
  · exact ⟨changeState_handsOut _ _, Or.inr rfl⟩
  · rename_i hrounds
    exact ⟨.of_quiet rfl (Quiet.refl l), Or.inl ⟨Nat.lt_of_not_le hrounds, rfl⟩⟩

@[simp] theorem negotiation_advancePeerSeq (l : LinkLayer) (p : Packet) :
    (l.advancePeerSeqFromAckable p).negotiation = l.negotiation := by
  unfold LinkLayer.advancePeerSeqFromAckable
  split <;> rfl

/-- An offer that is countered, at either end. -/
theorem offerCounter_negotiates {lsp counter : LSPPayload}
    (hquiet : HandsOut l (l.advancePeerSeqFromAckable p) [])
    (hctl : p.header.control.isSynAck ∨
      ((coreOf l).server = true ∧ p.header.control.isSyn))
    (hlsp : LSPPayload.fromPacket p = some lsp)
    (hcounter : ((coreOf l).advance p).counterOffer lsp = some counter) :
    Core.Negotiates (coreOf l) p
        (coreOf ((l.advancePeerSeqFromAckable p).offerCounter counter)) ∧
      HandsOut l ((l.advancePeerSeqFromAckable p).offerCounter counter) [] := by
  have hcore := coreOf_advancePeerSeq l p
  obtain ⟨hquiet', hoffer⟩ := offerCounter_spec (l.advancePeerSeqFromAckable p) counter
  refine ⟨?_, hquiet.trans hquiet'⟩
  rw [negotiation_advancePeerSeq, hcore] at hoffer
  obtain ⟨hrounds, hoffering⟩ | hexceeded := hoffer
  · rw [hoffering]
    exact .counter lsp counter hctl hlsp hcounter hrounds
  · rw [hexceeded]
    exact .exceeded lsp counter hctl hlsp hcounter

/-- A packet at an accessory that negotiates. -/
theorem onRecvNegAccessory_spec (l : LinkLayer) (p : Packet) (hserver : l.server = false) :
    Core.Negotiates (coreOf l) p (coreOf (l.onRecvNegAccessory p)) ∧
      HandsOut l (l.onRecvNegAccessory p) [] := by
  have hclient : (coreOf l).server = false := hserver
  unfold LinkLayer.onRecvNegAccessory
  split
  · refine ⟨.ignored fun h => ?_, .of_quiet rfl (Quiet.refl l)⟩
    rw [hclient] at h
    cases h
  · rename_i hguard
    rw [not_or, not_not, not_and, not_not] at hguard
    obtain ⟨hctl, hverify⟩ := hguard
    have hcore := coreOf_advancePeerSeq l p
    have hquiet := advancePeerSeq_handsOut l p
    dsimp only
    split
    · rename_i hlsp
      rw [hcore]
      exact ⟨.unparsed (Or.inl hctl) hlsp, hquiet⟩
    · rename_i lsp hlsp
      have hoffers : (l.advancePeerSeqFromAckable p).counterOffer lsp
          (l.advancePeerSeqFromAckable p).negotiation.negotiationCounter =
            ((coreOf l).advance p).counterOffer lsp := by
        rw [← hcore]
        rfl
      split
      · rename_i counter hcounter
        exact offerCounter_negotiates hquiet (Or.inl hctl) hlsp (hoffers ▸ hcounter)
      · rename_i hcounter
        have hnegotiates := Core.Negotiates.accept (c := coreOf l) lsp hclient hctl
          (fun peerSeq hpeer => ?_) hlsp (hoffers ▸ hcounter)
        · rw [← hcore] at hnegotiates
          exact ⟨hnegotiates, hquiet⟩
        · have hpeer' : l.peerSeq = some peerSeq := hpeer
          have hok := hverify (by simp [hpeer'])
          have hnumbers : p.header.seq = peerSeq + 1 ∧ p.header.ack = l.ownSeq - 1 := by
            simpa [LinkLayer.verifyNegSeqAck, hpeer'] using hok
          exact hnumbers

/-- A packet at a host that negotiates. -/
theorem onRecvNegHost_spec (l : LinkLayer) (p : Packet) (hserver : l.server = true) :
    Core.Negotiates (coreOf l) p (coreOf (l.onRecvNegHost p)) ∧
      HandsOut l (l.onRecvNegHost p) [] := by
  have hhost : (coreOf l).server = true := hserver
  have hcore := coreOf_advancePeerSeq l p
  have hquiet := advancePeerSeq_handsOut l p
  unfold LinkLayer.onRecvNegHost
  dsimp only
  split
  · rename_i hctl
    simp only [Bool.or_eq_true, not_or] at hctl
    exact ⟨.ignored fun _ => hctl.1.2, .of_quiet rfl (Quiet.refl l)⟩
  · rename_i hctl
    simp only [Bool.or_eq_true, not_not] at hctl
    split
    · rename_i hack
      refine ⟨?_, hquiet.trans (changeState_handsOut _ _)⟩
      have hopens := Core.Negotiates.opens (c := coreOf l) hhost hack
      rw [← hcore] at hopens
      exact hopens
    · rename_i hnotAck
      have hoffer : p.header.control.isSynAck = true ∨ p.header.control.isSyn = true := by
        obtain (hsyn | hack) | hsynAck := hctl
        · exact Or.inr hsyn
        · exact absurd hack hnotAck
        · exact Or.inl hsynAck
      split
      · rename_i hlsp
        rw [hcore]
        exact ⟨.unparsed hoffer hlsp, hquiet⟩
      · rename_i lsp hlsp
        have hoffers : (l.advancePeerSeqFromAckable p).counterOffer lsp
            (l.advancePeerSeqFromAckable p).negotiation.negotiationCounter =
              ((coreOf l).advance p).counterOffer lsp := by
          rw [← hcore]
          rfl
        split
        · rename_i counter hcounter
          exact offerCounter_negotiates hquiet (hoffer.imp_right fun hsyn => ⟨hhost, hsyn⟩) hlsp
            (hoffers ▸ hcounter)
        · rename_i hcounter
          have hcopy := Core.Negotiates.copy (c := coreOf l) lsp hhost hoffer hlsp
            (hoffers ▸ hcounter)
          rw [← hcore] at hcopy
          exact ⟨hcopy, hquiet⟩

theorem onRecvNeg_spec (l : LinkLayer) (p : Packet) :
    Core.Negotiates (coreOf l) p (coreOf (l.onRecvNeg p)) ∧ HandsOut l (l.onRecvNeg p) [] := by
  unfold LinkLayer.onRecvNeg
  split
  · rename_i hserver
    exact onRecvNegHost_spec l p hserver
  · rename_i hserver
    exact onRecvNegAccessory_spec l p (Bool.eq_false_iff.mpr hserver)

/-! ## Reading: payloads -/

theorem sendReadCsm_handsOut (l : LinkLayer) (payload : Bytes) :
    HandsOut l (l.sendEvent (.readCsm payload)) [payload] :=
  ⟨rfl, by simp [LinkLayer.sendEvent, writes, LinkEvent.write?],
    by simp [LinkLayer.sendEvent, csmReads, LinkEvent.readCsm?]⟩

/-- A payload goes to its session; the CSM payload of a packet is handed out. -/
theorem processAckPayload_spec (h : l.processAckPayload p = some l') :
    coreOf l' = coreOf l ∧ HandsOut l l' (Core.csmOf l.peerLsp p) := by
  unfold LinkLayer.processAckPayload at h
  split at h
  · rename_i hsession
    obtain rfl := Option.some.inj h
    refine ⟨rfl, ?_⟩
    have hnone : Core.csmOf l.peerLsp p = [] := by simp [Core.csmOf, hsession]
    rw [hnone]
    exact .of_quiet rfl (Quiet.refl l)
  · rename_i session hsession
    dsimp only at h
    split at h
    · rename_i htype
      obtain rfl := Option.some.inj h
      refine ⟨rfl, ?_⟩
      have hnone : Core.csmOf l.peerLsp p = [] := by
        cases hpayload : p.payload <;> simp [Core.csmOf, hsession, hpayload, htype]
      rw [hnone]
      exact .of_quiet rfl (drainEvents_quiet _)
    · rename_i htype
      split at h
      · rename_i hpayload
        obtain rfl := Option.some.inj h
        refine ⟨rfl, ?_⟩
        have hnone : Core.csmOf l.peerLsp p = [] := by simp [Core.csmOf, hsession, hpayload]
        rw [hnone]
        exact .of_quiet rfl (Quiet.refl l)
      · rename_i hpayload
        obtain rfl := Option.some.inj h
        refine ⟨rfl, ?_⟩
        have hnone : Core.csmOf l.peerLsp p = [] := by simp [Core.csmOf, hsession, hpayload]
        rw [hnone]
        exact .of_quiet rfl (Quiet.refl l)
      · rename_i payload hnotEmpty hpayload
        obtain rfl := Option.some.inj h
        refine ⟨rfl, ?_⟩
        have hone : Core.csmOf l.peerLsp p = [payload] := by
          have hne : payload ≠ [] := hnotEmpty
          simp [Core.csmOf, hsession, hpayload, htype, hne]
        rw [hone]
        obtain ⟨hcsm, hwrites, hreads⟩ :=
          sendReadCsm_handsOut { l with pendingAck := _ } payload
        exact ⟨hcsm, (drainEvents_quiet _).1.trans hwrites, (drainEvents_quiet _).2.trans hreads⟩
    · rename_i htype
      simp only [Option.bind_eq_bind, Option.bind_eq_some_iff, Option.pure_def,
        Option.some.injEq] at h
      obtain ⟨files, -, rfl⟩ := h
      refine ⟨rfl, ?_⟩
      have hnone : Core.csmOf l.peerLsp p = [] := by
        cases hpayload : p.payload <;> simp [Core.csmOf, hsession, hpayload, htype]
      rw [hnone]
      exact .of_quiet rfl (drainEvents_quiet _)

/-- **The loop over the buffered packets**, by induction on its bound: it ends where the
next packet is missing, as the buffer gets smaller each time. -/
theorem drainOutOfOrder_spec {fuel : Nat} {next : ModSeq8}
    (hfuel : ByteMap.size l.outOfOrder ≤ fuel)
    (h : LinkLayer.drainOutOfOrder fuel l next = some l') :
    ∃ qs, Core.Drains (coreOf l) next (coreOf l') qs ∧
      HandsOut l l' (qs.flatMap (Core.csmOf l.peerLsp)) := by
  induction fuel generalizing l next with
  | zero =>
    obtain rfl := Option.some.inj h
    have hempty := ByteMap.eq_none_of_size_eq_zero (Nat.le_zero.mp hfuel) next
    exact ⟨[], .stop _ next hempty, .of_quiet rfl (Quiet.refl l)⟩
  | succ fuel ih =>
    unfold LinkLayer.drainOutOfOrder at h
    split at h
    · rename_i hnext
      obtain rfl := Option.some.inj h
      exact ⟨[], .stop _ next hnext, .of_quiet rfl (Quiet.refl l)⟩
    · rename_i q hnext
      simp only [Option.bind_eq_bind, Option.bind_eq_some_iff] at h
      obtain ⟨l₁, hprocess, hrest⟩ := h
      obtain ⟨hcore, hhands⟩ := processAckPayload_spec hprocess
      have hsmaller := ByteMap.size_remove_lt hnext
      have hbuffer : l₁.outOfOrder = l.outOfOrder.remove next := congrArg Core.outOfOrder hcore
      have hlsp : l₁.peerLsp = l.peerLsp := congrArg Core.peerLsp hcore
      obtain ⟨qs, hdrains, hhands'⟩ := ih (by rw [hbuffer]; omega) hrest
      refine ⟨q :: qs, .more _ _ next q qs hnext ?_, ?_⟩
      · have hstart := congrArg (fun c : Core => { c with peerSeq := some next }) hcore
        exact hstart ▸ hdrains
      · have htotal := hhands.trans hhands'
        rw [List.flatMap_cons]
        simp only [hlsp] at htotal
        exact htotal

/-- The data part of a packet. -/
theorem readData_spec (h : l.readData p = some l') :
    ∃ delivered, Core.Delivers (coreOf l) p (coreOf l') delivered ∧ HandsOut l l' delivered := by
  unfold LinkLayer.readData at h
  obtain ⟨hcore, hquiet⟩ := readEak_spec l p
  set l₁ := l.readEak p
  suffices hsuffices : ∃ delivered, Core.Delivers (coreOf l₁) p (coreOf l') delivered ∧
      HandsOut l₁ l' delivered by
    obtain ⟨delivered, hdelivers, hhands⟩ := hsuffices
    exact ⟨delivered, hcore ▸ hdelivers, hquiet.trans hhands⟩
  have hsame : coreOf l₁ = coreOf l₁ ∧ HandsOut l₁ l₁ [] := ⟨rfl, .of_quiet rfl (Quiet.refl l₁)⟩
  dsimp only at h
  split at h
  · obtain rfl := Option.some.inj h
    exact ⟨[], .nothing, hsame.2⟩
  · rename_i peerSeq hpeer
    split at h
    · obtain rfl := Option.some.inj h
      exact ⟨[], .nothing, hsame.2⟩
    · rename_i hguard
      simp only [not_or, not_not, Option.isNone_iff_eq_none] at hguard
      obtain ⟨hctl, hpayload⟩ := hguard
      have hsome : p.payload.isSome = true := Option.isSome_iff_ne_none.mpr hpayload
      split at h
      · rename_i hcmp
        have hseq := partialCmp_eq_iff.mp hcmp
        simp only [Option.bind_eq_bind, Option.bind_eq_some_iff] at h
        obtain ⟨l₂, hprocess, hdrain⟩ := h
        obtain ⟨hcore₂, hhands⟩ := processAckPayload_spec hprocess
        obtain ⟨qs, hdrains, hhands'⟩ := drainOutOfOrder_spec (ByteMap.size_le _) hdrain
        have hlsp : l₂.peerLsp = l₁.peerLsp := congrArg Core.peerLsp hcore₂
        have hstart := congrArg (fun c : Core => { c with peerSeq := some p.header.seq }) hcore₂
        refine ⟨_, .inOrder (coreOf l') peerSeq qs hpeer hctl hsome hseq (hstart ▸ hdrains), ?_⟩
        have htotal := hhands.trans hhands'
        simp only [hlsp] at htotal
        exact htotal
      · rename_i hcmp
        obtain rfl := Option.some.inj h
        exact ⟨[], .buffer peerSeq hpeer hctl hsome hcmp, .of_quiet rfl (Quiet.refl l₁)⟩
      · obtain rfl := Option.some.inj h
        exact ⟨[], .nothing, .of_quiet rfl (Quiet.refl l₁)⟩
      · obtain rfl := Option.some.inj h
        exact ⟨[], .nothing, hsame.2⟩

/-! ## Reading a frame -/

theorem status_detecting_iff :
    l.status = .detecting ↔ (coreOf l).phase = .detecting := by
  cases hstatus : l.status <;> simp [coreOf, hstatus, phaseOf]

theorem status_negotiating_iff :
    l.status = .negotiating ↔ (coreOf l).phase = .negotiating := by
  cases hstatus : l.status <;> simp [coreOf, hstatus, phaseOf]

/-- A host that detects wakes up. -/
theorem wake_spec (l : LinkLayer) :
    let l₁ := if l.server && l.status = .detecting then l.changeState .negotiating else l
    coreOf l₁ = (coreOf l).wake ∧ HandsOut l l₁ [] := by
  have hcond : (l.server && decide (l.status = .detecting)) = true ↔
      ((coreOf l).server = true ∧ (coreOf l).phase = .detecting) := by
    rw [Bool.and_eq_true, decide_eq_true_iff, status_detecting_iff]
    exact Iff.rfl
  intro l₁
  unfold Core.wake
  by_cases hwake : (coreOf l).server = true ∧ (coreOf l).phase = .detecting
  · have hl₁ : l₁ = l.changeState .negotiating := if_pos (hcond.mpr hwake)
    rw [if_pos hwake, hl₁]
    exact ⟨rfl, changeState_handsOut _ _⟩
  · have hl₁ : l₁ = l := if_neg fun h => hwake (hcond.mp h)
    rw [if_neg hwake, hl₁]
    exact ⟨rfl, .of_quiet rfl (Quiet.refl l)⟩

/-- A packet. -/
theorem readPacket_spec (herror : (coreOf l).phase ≠ .error) (h : l.readPacket p = some l') :
    ∃ delivered, Core.Reads (coreOf l) (.packet p) (coreOf l') delivered ∧
      HandsOut l l' delivered := by
  unfold LinkLayer.readPacket at h
  split at h
  · obtain rfl := Option.some.inj h
    exact ⟨[], .fail _ herror, changeState_handsOut _ _⟩
  · rename_i hnotDowngrade
    have hdowngrade : (coreOf l).phase ≠ .downgrade := fun hp => hnotDowngrade (isDowngrade_iff.mpr hp)
    split at h
    · obtain rfl := Option.some.inj h
      exact ⟨[], .fail _ herror, changeState_handsOut _ _⟩
    · rename_i hsize
      have hfits : p.size ≤ (coreOf l).localLsp.maxLen.toNat := Nat.le_of_not_lt hsize
      obtain ⟨hwake, hquiet⟩ := wake_spec l
      dsimp only at h hwake hquiet
      generalize (if (l.server && decide (l.status = .detecting)) = true then
        l.changeState .negotiating else l) = l₁ at h hwake hquiet
      have hserver : l₁.server = (coreOf l).server := by
        have hsame : (coreOf l₁).server = (coreOf l).server := by
          rw [hwake]
          unfold Core.wake
          split <;> rfl
        exact hsame
      split at h
      · -- a reset ends the link of an accessory, which does not wake up
        rename_i hreset
        obtain rfl := Option.some.inj h
        have hclient : (coreOf l).server = false := by
          rw [← hserver]
          simpa using (Bool.and_eq_true_iff.mp hreset).1
        have hsame : coreOf l₁ = coreOf l := by
          rw [hwake, Core.wake, if_neg]
          simp [hclient]
        refine ⟨[], ?_, hquiet.trans (changeState_handsOut _ _)⟩
        rw [coreOf_enterErrorState, hsame]
        exact .fail _ herror
      · obtain ⟨hack, hquietAck⟩ := readAck_spec l₁ p
        rw [hwake] at hack
        split at h
        · rename_i hstatus
          obtain rfl := Option.some.inj h
          obtain ⟨hneg, hquietNeg⟩ := onRecvNeg_spec (l₁.readAck p) p
          have hphase := status_negotiating_iff.mp hstatus
          rw [hack] at hneg hphase
          rw [Core.receiveAck_phase] at hphase
          exact ⟨[], .negotiate p _ hphase hfits hneg, (hquiet.trans hquietAck).trans hquietNeg⟩
        · rename_i hnotNegotiating
          have hnotNeg : (coreOf l).wake.phase ≠ .negotiating := by
            intro hphase
            apply hnotNegotiating
            rw [status_negotiating_iff, hack, Core.receiveAck_phase]
            exact hphase
          have hasleep : (coreOf l).wake = coreOf l := by
            unfold Core.wake at hnotNeg ⊢
            split
            · rename_i hcond
              rw [if_pos hcond] at hnotNeg
              exact absurd rfl hnotNeg
            · rfl
          rw [hasleep] at hack hnotNeg
          split at h
          · rename_i hdata
            obtain ⟨delivered, hdelivers, hhands⟩ := readData_spec h
            have hphase := phaseOf_eq_data.mpr hdata
            have hphase' : (coreOf (l₁.readAck p)).phase = .data := hphase
            rw [hack] at hdelivers hphase'
            rw [Core.receiveAck_phase] at hphase'
            exact ⟨delivered, .data p _ delivered hphase' hfits hdelivers,
              (hquiet.trans hquietAck).trans hhands⟩
          · rename_i hnotData
            obtain rfl := Option.some.inj h
            have hnotDataPhase : (coreOf l).phase ≠ .data := by
              intro hphase
              apply hnotData
              rw [← phaseOf_eq_data]
              have hphase' : (coreOf (l₁.readAck p)).phase = .data := by
                rw [hack, Core.receiveAck_phase, hphase]
              exact hphase'
            have hphase : (coreOf l).phase = .detecting := by
              cases hcase : (coreOf l).phase <;> simp_all
            have hclient : (coreOf l).server = false := by
              rw [Bool.eq_false_iff]
              intro hhost
              unfold Core.wake at hasleep
              rw [if_pos ⟨hhost, hphase⟩] at hasleep
              have hbad := congrArg Core.phase hasleep
              rw [hphase] at hbad
              cases hbad
            refine ⟨[], ?_, hquiet.trans hquietAck⟩
            rw [hack]
            exact .early p hclient hphase

theorem readDetect_spec (herror : (coreOf l).phase ≠ .error) :
    Core.Reads (coreOf l) .detect (coreOf l.readDetect) [] ∧ HandsOut l l.readDetect [] := by
  unfold LinkLayer.readDetect
  split
  · exact ⟨.fail _ herror, changeState_handsOut _ _⟩
  · rename_i hnotDowngrade
    have hphase : (coreOf l).phase ≠ .downgrade := fun h => hnotDowngrade (isDowngrade_iff.mpr h)
    split
    · rename_i hserver
      exact ⟨.detect hphase (Or.inl hserver), .of_quiet rfl (drainEvents_quiet _)⟩
    · rename_i hserver
      have hclient : (coreOf l).server = false := Bool.eq_false_iff.mpr hserver
      split
      · rename_i hstatus
        exact ⟨.detectAnswered hclient (status_detecting_iff.mp hstatus),
          changeState_handsOut _ _⟩
      · rename_i hstatus
        exact ⟨.detect hphase (Or.inr fun h => hstatus (status_detecting_iff.mpr h)),
          .of_quiet rfl (Quiet.refl l)⟩

/-- The link can be downgraded only while it detects and has sent no DETECT of its own. -/
theorem downgrade_ok (h : l.downgrade = .ok l') :
    ((coreOf l).phase = .downgrade ∨ (coreOf l).phase = .detecting) ∧
      (coreOf l).detectSent = false ∧ l' = l.changeState .downgrade := by
  unfold LinkLayer.downgrade at h
  split at h
  · rename_i hstatus
    split at h
    · cases h
    · rename_i hsent
      exact ⟨Or.inr (status_detecting_iff.mp hstatus), by simpa [coreOf] using hsent,
        (Except.ok.inj h).symm⟩
  · rename_i hstatus
    split at h
    · cases h
    · rename_i hsent
      exact ⟨Or.inl (by simp [coreOf, hstatus, phaseOf]), by simpa [coreOf] using hsent,
        (Except.ok.inj h).symm⟩
  · cases h
  · cases h

theorem readLegacy_spec (herror : (coreOf l).phase ≠ .error) (body : Bytes) :
    Core.Reads (coreOf l) (.legacy body) (coreOf (l.readLegacy body)) [] ∧
      HandsOut l (l.readLegacy body) [] := by
  have hevent : ∀ l' : LinkLayer, HandsOut l' (l'.sendEvent (.readLegacy body)) [] := by
    intro l'
    exact ⟨rfl, by simp [LinkLayer.sendEvent, writes, LinkEvent.write?],
      by simp [LinkLayer.sendEvent, csmReads, LinkEvent.readCsm?]⟩
  unfold LinkLayer.readLegacy
  split
  · rename_i hauto
    obtain ⟨hserver, hnotDowngrade⟩ := Bool.and_eq_true_iff.mp hauto
    split
    · rename_i l' hok
      obtain ⟨hphase, hsent, rfl⟩ := downgrade_ok hok
      have hdetecting : (coreOf l).phase = .detecting := by
        obtain hdown | hdetecting := hphase
        · rw [isDowngrade_iff.mpr hdown] at hnotDowngrade
          cases hnotDowngrade
        · exact hdetecting
      have hnow : (l.changeState .downgrade).isDowngrade = true := rfl
      rw [if_pos hnow]
      exact ⟨.downgraded body hserver hdetecting hsent,
        (changeState_handsOut _ _).trans (hevent _)⟩
    · exact ⟨.fail _ herror, changeState_handsOut _ _⟩
  · split
    · rename_i hdowngrade
      exact ⟨.legacy body (isDowngrade_iff.mp hdowngrade), hevent _⟩
    · exact ⟨.fail _ herror, changeState_handsOut _ _⟩

/-- **Reading.** A `read` is one reception of the core: it writes nothing and hands out the
CSM payloads that the core delivers. -/
theorem read_spec {frame : PacketOrDetect} (h : l.read frame = some l') :
    ∃ delivered, Core.Reads (coreOf l) frame (coreOf l') delivered ∧
      HandsOut l l' delivered := by
  unfold LinkLayer.read at h
  split at h
  · rename_i herror
    obtain rfl := Option.some.inj h
    exact ⟨[], .ignore _ (isError_iff.mp herror), .of_quiet rfl (Quiet.refl l)⟩
  · rename_i hnotError
    have herror : (coreOf l).phase ≠ .error := fun hphase => hnotError (isError_iff.mpr hphase)
    cases frame with
    | detect =>
      obtain rfl := Option.some.inj h
      exact ⟨[], readDetect_spec herror⟩
    | legacy body =>
      obtain rfl := Option.some.inj h
      exact ⟨[], readLegacy_spec herror body⟩
    | packet p => exact readPacket_spec herror h

end Catplay.Analysis.Link
