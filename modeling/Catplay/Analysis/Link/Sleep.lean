import Catplay.Analysis.Link.Bookkeeping
import Catplay.Analysis.Link.Panics

/-!
# Whether `sleep` tells the truth

A link whose `reconcile` has nothing more to send is `Silent`: only the clock can make it
send again, and `Due` says when it does (`Silent.quiet`, `Silent.wakes`). So the delay that
`sleep` recommends is right where its deadline is the one that `Due` waits for. The two
differ in a client that repeats its DETECT, and where an EAK keeps the timers from being
looked at (`sleep_truth`).
-/

set_option autoImplicit false

namespace Catplay.Analysis.Link

open Catplay.Model.Link

/-! ## Links that only the clock can wake -/

/-- The clock makes the link send: a DETECT, a retransmission or an empty ACK. -/
inductive Due (l : LinkLayer) : Prop
  | detect (hstatus : l.status = .detecting) (hserver : l.server = false)
      (hdetect : l.shouldSendDetect = true)
  | retransmit (hstatus : l.status = .negotiating ∨ l.status.isData = true)
      (hretransmit : l.nextRetransmitSeq.isSome = true)
  | ack (hdata : l.status.isData = true) (hack : l.emptyAckDue = true)

/-- Nothing but the clock makes the link send. -/
structure Silent (l : LinkLayer) : Prop where
  running : l.isError = false
  noLegacy : l.lingo.queueTx = []
  downgraded : l.status = .downgrade → l.nextPayload.2 = none
  server : l.status = .detecting → l.server = true →
    l.pendingAck.needsDetectAcknowledge = false
  client : l.status = .detecting → l.server = false → l.detectLastTransmit.isSome = true
  answered : l.status = .negotiating → l.negotiation.takePendingTx.2 = none ∨ l.peerSeq = none
  opened : l.status = .negotiating → l.server = true ∨ l.synTransmitted.isSome = true
  noPayload : l.status = .writable → l.isWindowWritable = true →
    l.nextPayload.2 = none ∨ l.peerSeq = none

/-- Everything that `Due` and `sleep` look at, apart from the clock. -/
structure SameTimers (l l' : LinkLayer) : Prop where
  server : l'.server = l.server
  status : l'.status = l.status
  localLsp : l'.localLsp = l.localLsp
  peerSeq : l'.peerSeq = l.peerSeq
  retransmitMap : l'.retransmitMap = l.retransmitMap
  missingPsns : l'.missingPsns = l.missingPsns
  detectLastTransmit : l'.detectLastTransmit = l.detectLastTransmit
  deadline : l'.pendingAck.deadline = l.pendingAck.deadline
  unacked : l'.pendingAck.unackedPackets = l.pendingAck.unackedPackets
  force : l'.pendingAck.force = l.pendingAck.force

theorem SameTimers.refl (l : LinkLayer) : SameTimers l l :=
  ⟨rfl, rfl, rfl, rfl, rfl, rfl, rfl, rfl, rfl, rfl⟩

variable {l l' l₀ : LinkLayer} {seq : UInt8}

theorem SameTimers.symm (h : SameTimers l l') : SameTimers l' l :=
  ⟨h.server.symm, h.status.symm, h.localLsp.symm, h.peerSeq.symm, h.retransmitMap.symm,
    h.missingPsns.symm, h.detectLastTransmit.symm, h.deadline.symm, h.unacked.symm, h.force.symm⟩

theorem SameTimers.trans {l₁ l₂ l₃ : LinkLayer} (h₁ : SameTimers l₁ l₂) (h₂ : SameTimers l₂ l₃) :
    SameTimers l₁ l₃ :=
  ⟨h₂.server.trans h₁.server, h₂.status.trans h₁.status, h₂.localLsp.trans h₁.localLsp,
    h₂.peerSeq.trans h₁.peerSeq, h₂.retransmitMap.trans h₁.retransmitMap,
    h₂.missingPsns.trans h₁.missingPsns, h₂.detectLastTransmit.trans h₁.detectLastTransmit,
    h₂.deadline.trans h₁.deadline, h₂.unacked.trans h₁.unacked, h₂.force.trans h₁.force⟩

/-- The clock is not among the timers. -/
theorem SameTimers.atClock (l : LinkLayer) (clock : Nat) : SameTimers l { l with clock } :=
  ⟨rfl, rfl, rfl, rfl, rfl, rfl, rfl, rfl, rfl, rfl⟩

theorem SameTimers.nextRetransmitSeq (h : SameTimers l l')
    (hclock : l'.clock = l.clock) : l'.nextRetransmitSeq = l.nextRetransmitSeq := by
  unfold LinkLayer.nextRetransmitSeq
  rw [h.missingPsns, h.retransmitMap, hclock]

theorem SameTimers.emptyAckDue (h : SameTimers l l')
    (hclock : l'.clock = l.clock) : l'.emptyAckDue = l.emptyAckDue := by
  unfold LinkLayer.emptyAckDue
  rw [h.deadline, h.unacked, h.force, h.localLsp, hclock]

theorem SameTimers.due (h : SameTimers l l') (hclock : l'.clock = l.clock)
    (hdue : Due l) : Due l' := by
  cases hdue with
  | detect hstatus hserver hdetect =>
    refine .detect (h.status.trans hstatus) (h.server.trans hserver) ?_
    unfold LinkLayer.shouldSendDetect at hdetect ⊢
    rw [h.detectLastTransmit, hclock]
    exact hdetect
  | retransmit hstatus hretransmit =>
    refine .retransmit ?_ ?_
    · rw [h.status]
      exact hstatus
    · rw [h.nextRetransmitSeq hclock]
      exact hretransmit
  | ack hdata hack =>
    refine .ack ?_ ?_
    · rw [h.status]
      exact hdata
    · rw [h.emptyAckDue hclock]
      exact hack

theorem SameTimers.sane (h : SameTimers l l') (hsane : Sane l) : Sane l' := by
  have hunacked : (coreOf l').unacked = (coreOf l).unacked := by
    unfold coreOf
    dsimp only
    rw [h.retransmitMap]
  have hphase : (coreOf l').phase = (coreOf l).phase := congrArg phaseOf h.status
  have hpeer : (coreOf l').peerSeq = (coreOf l).peerSeq := h.peerSeq
  refine ⟨?_, ?_, ?_, ?_⟩
  · rw [hunacked, hpeer]
    exact hsane.kept
  · rw [hunacked, hphase]
    exact hsane.early
  · rw [hphase, hpeer]
    intro herror hearly
    have hcalm := hsane.calm herror hearly
    exact ⟨h.deadline.trans hcalm.deadline, h.unacked.trans hcalm.unacked,
      h.force.trans hcalm.force⟩
  · rw [hphase, h.missingPsns]
    exact hsane.missing

/-! ## A silent link before its time -/

/-- The file events play no part in the choice of a payload. -/
theorem nextPayload_drainEvents (l : LinkLayer) :
    l.drainEvents.nextPayload.2 = l.nextPayload.2 := by
  have hfiles : ∀ (files : FileSession) (n : Nat),
      (({ files with localEvents := [] } : FileSession).dequeueTx n).2 = (files.dequeueTx n).2 := by
    intro files n
    unfold FileSession.dequeueTx
    cases files.queueTx with
    | cons payload rest => rfl
    | nil =>
      dsimp only
      split <;> rfl
  unfold LinkLayer.nextPayload LinkLayer.drainEvents
  dsimp only
  rcases l.csm.dequeueTx with ⟨csm, _ | v⟩
  · dsimp only
    have hsame := hfiles l.files (l.peerLsp.maxLen.toNat - Packet.packetOverhead)
    rcases hleft : ({ l.files with localEvents := [] } : FileSession).dequeueTx
      (l.peerLsp.maxLen.toNat - Packet.packetOverhead) with ⟨files, v⟩
    rcases hright : l.files.dequeueTx (l.peerLsp.maxLen.toNat - Packet.packetOverhead)
      with ⟨files', v'⟩
    rw [hleft, hright] at hsame
    obtain rfl : v = v' := hsame
    cases v with
    | some v => rfl
    | none =>
      dsimp only
      rcases l.ea.dequeueTx with ⟨ea, _ | v⟩ <;> rfl
  · rfl

theorem Silent.drainEvents (h : Silent l) : Silent l.drainEvents := by
  refine ⟨h.running, h.noLegacy, fun hstatus => ?_, h.server, h.client, h.answered, h.opened,
    fun hstatus hwindow => ?_⟩
  · rw [nextPayload_drainEvents]
    exact h.downgraded hstatus
  · rw [nextPayload_drainEvents]
    exact h.noPayload hstatus hwindow

theorem SameTimers.drainEvents (l : LinkLayer) : SameTimers l l.drainEvents :=
  ⟨rfl, rfl, rfl, rfl, rfl, rfl, rfl, rfl, rfl, rfl⟩

/-- What a step that sends nothing leaves as it was. -/
structure Rests (l l' : LinkLayer) : Prop where
  timers : SameTimers l l'
  clock : l'.clock = l.clock
  writes : writes l'.events = writes l.events
  silent : Silent l'

theorem Rests.refl (h : Silent l) : Rests l l := ⟨.refl l, rfl, rfl, h⟩

theorem Rests.trans {l₁ l₂ l₃ : LinkLayer} (h₁ : Rests l₁ l₂) (h₂ : Rests l₂ l₃) : Rests l₁ l₃ :=
  ⟨h₁.timers.trans h₂.timers, h₂.clock.trans h₁.clock, h₂.writes.trans h₁.writes, h₂.silent⟩

/-- An answer is taken once. -/
theorem takePendingTx_twice (negotiation : Negotiation) :
    negotiation.takePendingTx.1.takePendingTx.2 = none := by
  obtain htaken | ⟨-, htaken⟩ | ⟨-, htaken⟩ := takePendingTx_cases negotiation
  · rw [htaken]
    dsimp only
    rw [htaken]
  · rw [htaken]
    rfl
  · rw [htaken]
    rfl

/-- Without an answer, or without a number to answer to, the negotiation sends nothing. -/
theorem takePending_none (h : l.negotiation.takePendingTx.2 = none ∨ l.peerSeq = none) :
    l.takePendingNegotiationTransmit =
      some ({ l with negotiation := l.negotiation.takePendingTx.1 }, none) := by
  unfold LinkLayer.takePendingNegotiationTransmit
  dsimp only
  rcases h with hnone | hunknown
  · rw [hnone]
  · rw [hunknown]
    cases l.negotiation.takePendingTx.2 with
    | none => rfl
    | some tx => cases tx <;> rfl

theorem forgetIds_rests (h : Silent l) : Rests l (forgetIds l) := by
  refine ⟨⟨rfl, rfl, rfl, rfl, rfl, rfl, rfl, rfl, rfl, rfl⟩, rfl, rfl, ?_⟩
  have hnext : (forgetIds l).nextPayload.2 = l.nextPayload.2 := by
    rw [nextPayload_forgetIds]
  refine ⟨h.running, h.noLegacy, fun hstatus => ?_, h.server, h.client, h.answered, h.opened,
    fun hstatus hwindow => ?_⟩
  · rw [hnext]
    exact h.downgraded hstatus
  · rw [hnext]
    exact h.noPayload hstatus hwindow

/-- A payload that is lost because the number of the peer is unknown. -/
theorem afterDequeue_rests (h : Silent l) (hdata : l.status.isData = true)
    (hpeer : l.peerSeq = none) : Rests l (afterDequeue l) := by
  obtain ⟨csm, files, ea, hframe⟩ := afterDequeue_frame l
  rw [hframe]
  refine ⟨⟨rfl, rfl, rfl, rfl, rfl, rfl, rfl, rfl, rfl, rfl⟩, rfl, rfl, ?_⟩
  refine ⟨h.running, h.noLegacy, fun hstatus => ?_, h.server, h.client, h.answered, h.opened,
    fun _ _ => Or.inr hpeer⟩
  have hbad : l.status = .downgrade := hstatus
  rw [hbad] at hdata
  cases hdata

/-- **Before its time** a silent link sends nothing, and stays silent. -/
theorem Silent.rests (h : Silent l) (hnot : ¬ Due l) :
    ∃ l', l.nextTransmit = some (l', none) ∧ Rests l l' := by
  by_cases hdown : l.status = .downgrade
  · refine ⟨l, ?_, .refl h⟩
    rw [nextTransmit_of_downgrade hdown h.noLegacy, h.downgraded hdown]
    rfl
  · rw [nextTransmit_of_iap2 h.running hdown h.noLegacy]
    unfold LinkLayer.nextIap2Transmit
    split
    · rename_i hstatus
      refine ⟨l, ?_, .refl h⟩
      unfold LinkLayer.transmitDetecting
      rcases Bool.eq_false_or_eq_true l.server with hserver | hserver
      · rw [if_pos hserver, h.server hstatus hserver]
        rfl
      · have hwait : ¬ l.shouldSendDetect = true := fun hbad => hnot (.detect hstatus hserver hbad)
        rw [if_neg (by rw [hserver]; simp), if_neg hwait]
    · split
      · rename_i hstatus
        refine ⟨{ l with negotiation := l.negotiation.takePendingTx.1 }, ?_, ?_⟩
        · unfold LinkLayer.transmitNegotiating
          rw [takePending_none (h.answered hstatus)]
          simp only [Option.bind_eq_bind, Option.bind_some]
          have hsent : ¬ (!l.server && l.synTransmitted.isNone) = true := by
            rcases h.opened hstatus with hserver | hsyn
            · simp [hserver]
            · simp [Option.isSome_iff_ne_none.mp hsyn]
          rw [if_neg hsent]
          have hnone : l.nextRetransmitSeq = none := by
            by_contra hsome
            exact hnot (.retransmit (Or.inl hstatus) (Option.isSome_iff_ne_none.mpr hsome))
          have hsame : ({ l with negotiation := l.negotiation.takePendingTx.1 } :
              LinkLayer).nextRetransmitSeq = none := hnone
          rw [hsame]
          rfl
        · refine ⟨⟨rfl, rfl, rfl, rfl, rfl, rfl, rfl, rfl, rfl, rfl⟩, rfl, rfl, ?_⟩
          exact ⟨h.running, h.noLegacy, fun hbad => absurd hbad hdown, h.server, h.client,
            fun _ => Or.inl (takePendingTx_twice l.negotiation), h.opened,
            fun hbad _ => absurd (hstatus.symm.trans hbad) (by decide)⟩
      · split
        · rename_i hdata
          have hnone : l.nextRetransmitSeq = none := by
            by_contra hsome
            exact hnot (.retransmit (Or.inr hdata) (Option.isSome_iff_ne_none.mpr hsome))
          have hwait : (forgetIds l).transmitEmptyAck = some (forgetIds l, none) := by
            have hack : ¬ (forgetIds l).emptyAckDue = true := fun hbad => hnot (.ack hdata hbad)
            unfold LinkLayer.transmitEmptyAck
            rw [if_neg hack]
          rw [transmitData_eq, hnone]
          dsimp only
          split
          · rename_i hopen
            cases hnext : l.nextPayload.2 with
            | none => exact ⟨_, hwait, forgetIds_rests h⟩
            | some taken =>
              rcases h.noPayload hopen.2 hopen.1 with hbad | hpeer
              · rw [hnext] at hbad
                cases hbad
              · refine ⟨afterDequeue l, ?_, afterDequeue_rests h hdata hpeer⟩
                unfold LinkLayer.transmitPayload
                rw [peerSeq_afterDequeue, hpeer]
          · exact ⟨_, hwait, forgetIds_rests h⟩
        · exact ⟨l, rfl, .refl h⟩

/-! ## A silent link at its time -/

/-- A retransmission sends its packet, or the link fails. -/
theorem retransmitOne_wakes (hsane : Sane l) (h : l.nextRetransmitSeq = some seq) :
    (l.retransmitOne seq).2.isSome = true ∨ (l.retransmitOne seq).1.isError = true := by
  obtain ⟨entry, hentry⟩ := nextRetransmitSeq_kept h
  unfold LinkLayer.retransmitOne
  rw [hentry]
  dsimp only
  split
  · exact Or.inr rfl
  · have hstamp : (l.restamp entry.packet).isSome = true := by
      unfold LinkLayer.restamp
      split
      · rfl
      · rename_i hsyn
        have hunacked : (coreOf l).unacked seq = some entry.packet := by
          unfold coreOf
          dsimp only
          rw [hentry]
          rfl
        rcases hsane.kept seq entry.packet hunacked with hpeer | hbad
        · rw [Option.isSome_map]
          exact hpeer
        · exact absurd hbad hsyn
    obtain ⟨p, hp⟩ := Option.isSome_iff_exists.mp hstamp
    rw [hp]
    exact Or.inl rfl

/-- A calm link owes nothing. -/
theorem Calm.not_due (h : Calm l) : l.emptyAckDue = false := by
  unfold LinkLayer.emptyAckDue
  rw [h.deadline, h.unacked, h.force]
  dsimp only
  split
  · rfl
  · rename_i hbudget
    have hpos : l.localLsp.maxAck.toNat ≠ 0 := by
      intro h0
      exact hbudget (UInt8.toNat_inj.mp (by simpa using h0))
    simp
    omega

/-- **At its time** a silent link sends a frame, or fails. -/
theorem Silent.wakes (h : Silent l) (hsane : Sane l) (hdue : Due l) :
    ∃ l' next, l.nextTransmit = some (l', next) ∧ (next.isSome = true ∨ l'.isError = true) := by
  have hdown : l.status ≠ .downgrade := by
    intro hbad
    cases hdue with
    | detect hstatus =>
      rw [hbad] at hstatus
      cases hstatus
    | retransmit hstatus =>
      rw [hbad] at hstatus
      simp [LinkStatus.isData] at hstatus
    | ack hdata =>
      rw [hbad] at hdata
      cases hdata
  rw [nextTransmit_of_iap2 h.running hdown h.noLegacy]
  -- a retransmission in the data phase
  have hresend : l.status.isData = true → ∀ seq, l.nextRetransmitSeq = some seq →
      ∃ l' next, l.nextIap2Transmit = some (l', next) ∧
        (next.isSome = true ∨ l'.isError = true) := by
    intro hdata seq hseq
    rw [nextIap2Transmit_of_data hdata, transmitData_eq, hseq]
    have hsame : (forgetIds l).nextRetransmitSeq = some seq := hseq
    exact ⟨_, _, rfl, retransmitOne_wakes ((forgetIds_rests h).timers.sane hsane) hsame⟩
  cases hdue with
  | detect hstatus hserver hdetect =>
    refine ⟨{ l with detectLastTransmit := some l.clock }, some .detect, ?_, Or.inl rfl⟩
    unfold LinkLayer.nextIap2Transmit LinkLayer.transmitDetecting
    rw [if_pos hstatus, if_neg (by rw [hserver]; simp), if_pos hdetect]
  | retransmit hstatus hretransmit =>
    obtain ⟨seq, hseq⟩ := Option.isSome_iff_exists.mp hretransmit
    rcases hstatus with hstatus | hdata
    · unfold LinkLayer.nextIap2Transmit
      rw [if_neg (by rw [hstatus]; decide), if_pos hstatus]
      unfold LinkLayer.transmitNegotiating
      rw [takePending_none (h.answered hstatus)]
      simp only [Option.bind_eq_bind, Option.bind_some]
      have hsent : ¬ (!l.server && l.synTransmitted.isNone) = true := by
        rcases h.opened hstatus with hserver | hsyn
        · simp [hserver]
        · simp [Option.isSome_iff_ne_none.mp hsyn]
      rw [if_neg hsent]
      have hsame : ({ l with negotiation := l.negotiation.takePendingTx.1 } :
          LinkLayer).nextRetransmitSeq = some seq := hseq
      rw [hsame]
      have hsane' : Sane { l with negotiation := l.negotiation.takePendingTx.1 } :=
        SameTimers.sane (l := l) ⟨rfl, rfl, rfl, rfl, rfl, rfl, rfl, rfl, rfl, rfl⟩ hsane
      exact ⟨_, _, rfl, retransmitOne_wakes hsane' hsame⟩
    · exact hresend hdata seq hseq
  | ack hdata hack =>
    have hknown : l.peerSeq.isSome = true := by
      rw [Option.isSome_iff_ne_none]
      intro hunknown
      have hcalm := hsane.calm (fun hbad => by
        have hphase : phaseOf l.status = .data := phaseOf_eq_data.mpr hdata
        have hphase' : phaseOf l.status = .error := hbad
        rw [hphase] at hphase'
        cases hphase') (Or.inr hunknown)
      rw [hcalm.not_due] at hack
      cases hack
    obtain ⟨peerSeq, hpeer⟩ := Option.isSome_iff_exists.mp hknown
    cases hseq : l.nextRetransmitSeq with
    | some seq => exact hresend hdata seq hseq
    | none =>
      have hsend : ∃ l' next, (forgetIds l).transmitEmptyAck = some (l', next) ∧
          (next.isSome = true ∨ l'.isError = true) := by
        obtain ⟨p, hp⟩ := Option.isSome_iff_exists.mp
          (newAck_none_isSome ((forgetIds l).ownSeq - 1) peerSeq LSPPayload.sessionIdControl)
        have hdue' : (forgetIds l).emptyAckDue = true := hack
        have hpeer' : (forgetIds l).peerSeq = some peerSeq := hpeer
        unfold LinkLayer.transmitEmptyAck
        rw [if_pos hdue', hpeer']
        dsimp only
        rw [hp]
        exact ⟨_, _, rfl, Or.inl rfl⟩
      rw [nextIap2Transmit_of_data hdata, transmitData_eq, hseq]
      dsimp only
      split
      · rename_i hopen
        rcases h.noPayload hopen.2 hopen.1 with hnone | hbad
        · rw [hnone]
          exact hsend
        · rw [hbad] at hknown
          cases hknown
      · exact hsend

/-! ## Reconciling while waiting -/

/-- Before its time a silent link is not moved by `reconcile`, whatever the budget. -/
theorem Silent.reconcile_rests (h : Silent l) (hnot : ¬ Due l) (budget : Nat) :
    ∃ l' more, l.reconcile budget = some (l', more) ∧ Rests l l' := by
  have hdrained : Rests l l.drainEvents :=
    ⟨.drainEvents l, rfl, (drainEvents_quiet l).1, h.drainEvents⟩
  cases budget with
  | zero => exact ⟨l.drainEvents, true, rfl, hdrained⟩
  | succ budget =>
    have hnot' : ¬ Due l.drainEvents := fun hdue =>
      hnot (hdrained.timers.symm.due hdrained.clock.symm hdue)
    obtain ⟨l', hnext, hrests⟩ := hdrained.silent.rests hnot'
    refine ⟨l', false, ?_, hdrained.trans hrests⟩
    unfold LinkLayer.reconcile LinkLayer.transmitLoop
    rw [hnext]
    rfl

/-- **At its time** a silent link that is reconciled writes a frame, or fails. -/
theorem Silent.reconcile_wakes {budget : Nat} {more : Bool} (h : Silent l)
    (hsane : Sane l) (hdue : Due l) (hreconcile : l.reconcile (budget + 1) = some (l', more)) :
    writes l'.events ≠ writes l.events ∨ l'.status ≠ l.status := by
  have hdrained : SameTimers l l.drainEvents := .drainEvents l
  obtain ⟨l₁, next, hnext, hwakes⟩ :=
    h.drainEvents.wakes (hdrained.sane hsane) (hdrained.due rfl hdue)
  unfold LinkLayer.reconcile LinkLayer.transmitLoop at hreconcile
  rw [hnext] at hreconcile
  cases next with
  | none =>
    obtain ⟨rfl, -⟩ := Prod.mk.inj (Option.some.inj hreconcile)
    rcases hwakes with hbad | herror
    · cases hbad
    · refine Or.inr fun hsame => ?_
      have hrunning := h.running
      unfold LinkLayer.isError at herror hrunning
      rw [hsame, hrunning] at herror
      cases herror
  | some frame =>
    refine Or.inl ?_
    obtain ⟨frames, -, -, -, hmore, -⟩ := transmitLoop_spec hreconcile
    obtain ⟨-, -, -, hfirst, -⟩ := (nextTransmit_spec hnext).write
    rw [hmore, hfirst, (drainEvents_quiet l).1]
    simp

/-- A driver that reconciles now and then, with no input in between: each time some nanoseconds
later, and with some budget. -/
def waitFor : List (Nat × Nat) → LinkLayer → Option LinkLayer
  | [], l => some l
  | (nanos, txBudget) :: waits, l => do
    let (l, _) ← LinkLayer.reconcile { l with clock := l.clock + nanos } txBudget
    waitFor waits l

/-- The time that passes. -/
def waited (waits : List (Nat × Nat)) : Nat := (waits.map (·.1)).sum

/-- Waiting does not change what waits for the clock. -/
theorem Silent.atClock (h : Silent l) (clock : Nat) :
    Silent { l with clock } := by
  have hnext : ({ l with clock } : LinkLayer).nextPayload.2 = l.nextPayload.2 :=
    nextPayload_congr rfl rfl rfl rfl
  refine ⟨h.running, h.noLegacy, ?_, h.server, h.client, h.answered, h.opened, ?_⟩
  · rw [hnext]
    exact h.downgraded
  · rw [hnext]
    exact h.noPayload

/-- **Waiting.** A silent link that is not due all the while writes nothing. -/
theorem Silent.waitFor (h : Silent l) (waits : List (Nat × Nat))
    (hnot : ∀ clock, l.clock ≤ clock → clock ≤ l.clock + waited waits →
      ¬ Due { l with clock }) :
    ∃ l', waitFor waits l = some l' ∧ writes l'.events = writes l.events := by
  induction waits generalizing l with
  | nil => exact ⟨l, rfl, rfl⟩
  | cons wait waits ih =>
    obtain ⟨nanos, txBudget⟩ := wait
    have htotal : waited ((nanos, txBudget) :: waits) = nanos + waited waits := by
      simp [waited]
    rw [htotal] at hnot
    have hnow : ¬ Due { l with clock := l.clock + nanos } :=
      hnot (l.clock + nanos) (by omega) (by omega)
    obtain ⟨l₁, more, hreconcile, hrests⟩ :=
      (h.atClock (l.clock + nanos)).reconcile_rests hnow txBudget
    have hclock : l₁.clock = l.clock + nanos := hrests.clock
    obtain ⟨l', hlater, hwrites⟩ := ih hrests.silent fun clock hlow hhigh hdue => by
      refine hnot clock (by omega) (by omega) ?_
      have hsame : SameTimers { l with clock := l.clock + nanos } l₁ := hrests.timers
      have hback : SameTimers { l₁ with clock } { l with clock } :=
        ((SameTimers.atClock l₁ clock).symm.trans hsame.symm).trans
          ((SameTimers.atClock l (l.clock + nanos)).symm.trans (SameTimers.atClock l clock))
      exact hback.due rfl hdue
    refine ⟨l', ?_, hwrites.trans hrests.writes⟩
    unfold Analysis.Link.waitFor
    rw [hreconcile]
    exact hlater

/-! ## After the last transmission -/

/-- A `reconcile` that returns `false` ends with a step that sends nothing. -/
theorem transmitLoop_false {budget : Nat} (h : LinkLayer.transmitLoop budget l = some (l', false)) :
    ∃ l₀ : LinkLayer, l₀.nextTransmit = some (l', none) := by
  induction budget generalizing l with
  | zero => cases (Prod.mk.inj (Option.some.inj h)).2
  | succ budget ih =>
    obtain ⟨⟨l₁, next⟩, hnext, hrest⟩ := Option.bind_eq_some_iff.mp h
    cases next with
    | none =>
      obtain ⟨rfl, -⟩ := Prod.mk.inj (Option.some.inj hrest)
      exact ⟨l, hnext⟩
    | some frame => exact ih hrest

/-- A retransmission that sends nothing has failed, or it lacks the number of the peer. -/
theorem retransmitOne_none (hsane : Sane l)
    (h : l.nextRetransmitSeq = some seq) (hnone : (l.retransmitOne seq).2 = none) :
    (l.retransmitOne seq).1.isError = true := by
  rcases retransmitOne_wakes hsane h with hbad | herror
  · rw [hnone] at hbad
    cases hbad
  · exact herror

/-- A retransmission that does not fail leaves the timers of the other packets alone, and those
of a packet that is not sent. -/
theorem retransmitOne_kept (hnone : (l.retransmitOne seq).2 = none)
    (herror : (l.retransmitOne seq).1.isError = false) : (l.retransmitOne seq).1 = l := by
  unfold LinkLayer.retransmitOne at hnone herror ⊢
  split
  · rfl
  · rename_i entry hentry
    rw [hentry] at hnone herror
    dsimp only at hnone herror ⊢
    split
    · rename_i hexceeded
      rw [if_pos hexceeded] at herror
      cases herror
    · rename_i hbudget
      rw [if_neg hbudget] at hnone
      cases hstamp : l.restamp entry.packet with
      | none => rfl
      | some p =>
        rw [hstamp] at hnone
        cases hnone

/-- An empty ACK that is not sent was not due, or lacked the number of the peer. -/
theorem transmitEmptyAck_none (h : l.transmitEmptyAck = some (l', none)) :
    l' = l ∧ (l.emptyAckDue = false ∨ l.peerSeq = none) := by
  unfold LinkLayer.transmitEmptyAck at h
  split at h
  · split at h
    · rename_i hunknown
      obtain ⟨rfl, -⟩ := Prod.mk.inj (Option.some.inj h)
      exact ⟨rfl, Or.inr hunknown⟩
    · obtain ⟨p, -, hbad⟩ := Option.bind_eq_some_iff.mp h
      cases (Prod.mk.inj (Option.some.inj hbad)).2
  · rename_i hwait
    obtain ⟨rfl, -⟩ := Prod.mk.inj (Option.some.inj h)
    exact ⟨rfl, Or.inl (Bool.eq_false_iff.mpr hwait)⟩

/-- A payload that is taken and not sent was lost for want of the number of the peer. -/
theorem transmitPayload_none {sessionType : SessionType} {payload : Bytes}
    (h : l.transmitPayload sessionType payload = some (l', none)) (hrunning : l'.isError = false) :
    l' = l ∧ l.peerSeq = none := by
  unfold LinkLayer.transmitPayload at h
  split at h
  · rename_i hunknown
    obtain ⟨rfl, -⟩ := Prod.mk.inj (Option.some.inj h)
    exact ⟨rfl, hunknown⟩
  · obtain ⟨session, -, h⟩ := Option.bind_eq_some_iff.mp h
    obtain ⟨p, -, h⟩ := Option.bind_eq_some_iff.mp h
    dsimp only at h
    split at h
    · obtain ⟨rfl, -⟩ := Prod.mk.inj (Option.some.inj h)
      cases hrunning
    · cases (Prod.mk.inj (Option.some.inj h)).2

/-- An acknowledgement is due only when the number of the peer is known. -/
theorem Sane.known_of_due (h : Sane l) (hdata : l.status.isData = true)
    (hdue : l.emptyAckDue = true) : l.peerSeq ≠ none := by
  intro hunknown
  have hphase : (coreOf l).phase = .data := phaseOf_eq_data.mpr hdata
  have hcalm := h.calm (by rw [hphase]; decide) (Or.inr hunknown)
  rw [hcalm.not_due] at hdue
  cases hdue

/-- A step in the detecting phase that sends nothing changes nothing. -/
theorem silent_of_detecting (h : l₀.transmitDetecting = (l, none))
    (hstatus : l₀.status = .detecting) (hrunning : l.isError = false)
    (hlingo : l₀.lingo.queueTx = []) : Silent l ∧ ¬ Due l := by
  have hsame : l = l₀ ∧ (l₀.server = true → l₀.pendingAck.needsDetectAcknowledge = false) ∧
      (l₀.server = false → l₀.shouldSendDetect = false) := by
    unfold LinkLayer.transmitDetecting at h
    rcases Bool.eq_false_or_eq_true l₀.server with hserver | hserver
    · rw [if_pos hserver] at h
      split at h
      · cases (Prod.mk.inj h).2
      · rename_i hwait
        refine ⟨(Prod.mk.inj h).1.symm, fun _ => Bool.eq_false_iff.mpr hwait, fun hbad => ?_⟩
        rw [hserver] at hbad
        cases hbad
    · rw [if_neg (by rw [hserver]; simp)] at h
      split at h
      · cases (Prod.mk.inj h).2
      · rename_i hwait
        refine ⟨(Prod.mk.inj h).1.symm, fun hbad => ?_, fun _ => Bool.eq_false_iff.mpr hwait⟩
        rw [hserver] at hbad
        cases hbad
  obtain ⟨rfl, hserver, hclient⟩ := hsame
  have hother : ∀ state : LinkStatus, state ≠ .detecting → l.status = state → False :=
    fun state hne hbad => hne (hbad.symm.trans hstatus)
  refine ⟨⟨hrunning, hlingo, ?_, fun _ => hserver, fun _ haccessory => ?_, ?_, ?_, ?_⟩, ?_⟩
  · exact fun hbad => (hother _ (by decide) hbad).elim
  · have hwait := hclient haccessory
    unfold LinkLayer.shouldSendDetect at hwait
    cases hlast : l.detectLastTransmit with
    | some last => rfl
    | none =>
      rw [hlast] at hwait
      cases hwait
  · exact fun hbad => (hother _ (by decide) hbad).elim
  · exact fun hbad => (hother _ (by decide) hbad).elim
  · exact fun hbad => (hother _ (by decide) hbad).elim
  · intro hdue
    cases hdue with
    | detect _ haccessory hdetect =>
      rw [hclient haccessory] at hdetect
      cases hdetect
    | retransmit hbad =>
      rcases hbad with hbad | hbad
      · exact hother _ (by decide) hbad
      · rw [hstatus] at hbad
        cases hbad
    | ack hbad =>
      rw [hstatus] at hbad
      cases hbad

/-- A step of the negotiation that sends nothing takes the answer that it cannot send. -/
theorem silent_of_negotiating (h : l₀.transmitNegotiating = some (l, none))
    (hstatus : l₀.status = .negotiating)
    (hresend : ∀ {l₁ : LinkLayer} {seq : UInt8}, l₁.nextRetransmitSeq = some seq →
      l₁.retransmitOne seq ≠ (l, none))
    (hrunning : l.isError = false) (hlingo : l₀.lingo.queueTx = []) : Silent l ∧ ¬ Due l := by
  have htaken : l₀.takePendingNegotiationTransmit =
      some ({ l₀ with negotiation := l₀.negotiation.takePendingTx.1 }, none) := by
    rcases takePending_cases l₀ with ⟨-, -, -, hnext⟩ | ⟨-, -, l', next, hnext⟩ | ⟨-, htaken⟩
    · cases htaken : l₀.takePendingNegotiationTransmit with
      | none =>
        unfold LinkLayer.transmitNegotiating at h
        rw [htaken] at h
        cases h
      | some taken =>
        obtain ⟨l', next⟩ := taken
        obtain ⟨frame, rfl⟩ := Option.isSome_iff_exists.mp (hnext l' next htaken)
        unfold LinkLayer.transmitNegotiating at h
        rw [htaken] at h
        cases (Prod.mk.inj (Option.some.inj h)).2
    · unfold LinkLayer.transmitNegotiating at h
      rw [hnext] at h
      cases (Prod.mk.inj (Option.some.inj h)).2
    · exact htaken
  unfold LinkLayer.transmitNegotiating at h
  rw [htaken] at h
  simp only [Option.bind_eq_bind, Option.bind_some] at h
  split at h
  · obtain ⟨syn, -, h⟩ := Option.bind_eq_some_iff.mp h
    cases (Prod.mk.inj (Option.some.inj h)).2
  · rename_i hsent
    split at h
    · rename_i seq hseq
      exact absurd (Option.some.inj h) (hresend hseq)
    · rename_i hnone
      obtain ⟨rfl, -⟩ := Prod.mk.inj (Option.some.inj h)
      have hother : ∀ state : LinkStatus, state ≠ .negotiating → l₀.status = state → False :=
        fun state hne hbad => hne (hbad.symm.trans hstatus)
      refine ⟨⟨hrunning, hlingo, ?_, ?_, ?_, fun _ => Or.inl (takePendingTx_twice l₀.negotiation),
        fun _ => ?_, ?_⟩, ?_⟩
      · exact fun hbad => (hother _ (by decide) hbad).elim
      · exact fun hbad => (hother _ (by decide) hbad).elim
      · exact fun hbad => (hother _ (by decide) hbad).elim
      · show l₀.server = true ∨ l₀.synTransmitted.isSome = true
        rcases Bool.eq_false_or_eq_true l₀.server with hserver | hserver
        · exact Or.inl hserver
        · refine Or.inr ?_
          cases hsyn : l₀.synTransmitted with
          | some sent => rfl
          | none =>
            refine absurd ?_ hsent
            simp [hserver, hsyn]
      · exact fun hbad => (hother _ (by decide) hbad).elim
      · intro hdue
        cases hdue with
        | detect hbad => exact hother _ (by decide) hbad
        | retransmit _ hretransmit =>
          rw [hnone] at hretransmit
          cases hretransmit
        | ack hbad =>
          have hdata : l₀.status.isData = true := hbad
          rw [hstatus] at hdata
          cases hdata

/-- A step of the data phase that sends nothing may lose a payload, where the number of the peer
is unknown. -/
theorem silent_of_data (h : l₀.transmitData = some (l, none))
    (hdata : l₀.status.isData = true)
    (hresend : ∀ {l₁ : LinkLayer} {seq : UInt8}, l₁.nextRetransmitSeq = some seq →
      l₁.retransmitOne seq ≠ (l, none))
    (hrunning : l.isError = false) (hlingo : l₀.lingo.queueTx = []) (hsane : Sane l) :
    Silent l ∧ ¬ Due l := by
  rw [transmitData_eq] at h
  have hother : ∀ state : LinkStatus, state.isData = false → l₀.status = state → False := by
    intro state hne hbad
    rw [hbad, hne] at hdata
    cases hdata
  -- what is left to show once the link is known
  have hfinish : ∀ l' : LinkLayer, l'.status = l₀.status → l'.lingo = l₀.lingo →
      l'.nextRetransmitSeq = none → l'.isError = false →
      (l'.emptyAckDue = false ∨ l'.peerSeq = none) → Sane l' →
      (l'.status = .writable → l'.isWindowWritable = true →
        l'.nextPayload.2 = none ∨ l'.peerSeq = none) → Silent l' ∧ ¬ Due l' := by
    intro l' hsame hqueue hnone hrunning' hack hsane' hpayload
    have hother' : ∀ state : LinkStatus, state.isData = false → l'.status = state → False :=
      fun state hne hbad => hother state hne (hsame.symm.trans hbad)
    refine ⟨⟨hrunning', by rw [hqueue]; exact hlingo, ?_, ?_, ?_, ?_, ?_, hpayload⟩, ?_⟩
    · exact fun hbad => (hother' _ rfl hbad).elim
    · exact fun hbad => (hother' _ rfl hbad).elim
    · exact fun hbad => (hother' _ rfl hbad).elim
    · exact fun hbad => (hother' _ rfl hbad).elim
    · exact fun hbad => (hother' _ rfl hbad).elim
    · intro hdue
      cases hdue with
      | detect hbad => exact hother' _ rfl hbad
      | retransmit _ hretransmit =>
        rw [hnone] at hretransmit
        cases hretransmit
      | ack hdata' hbad =>
        rcases hack with hwait | hunknown
        · rw [hwait] at hbad
          cases hbad
        · exact hsane'.known_of_due hdata' hbad hunknown
  cases hnone : l₀.nextRetransmitSeq with
  | some seq =>
    rw [hnone] at h
    have hsame : (forgetIds l₀).nextRetransmitSeq = some seq := hnone
    exact absurd (Option.some.inj h) (hresend hsame)
  | none =>
    rw [hnone] at h
    dsimp only at h
    have hnone' : (forgetIds l₀).nextRetransmitSeq = none := hnone
    have hpayloads : (forgetIds l₀).nextPayload.2 = l₀.nextPayload.2 := by
      rw [nextPayload_forgetIds]
    split at h
    · rename_i hopen
      cases hnext : l₀.nextPayload.2 with
      | some taken =>
        rw [hnext] at h
        obtain ⟨rfl, hunknown⟩ := transmitPayload_none h hrunning
        have hlost : (afterDequeue l₀).nextRetransmitSeq = none := by
          unfold LinkLayer.nextRetransmitSeq
          rw [missingPsns_afterDequeue, retransmitMap_afterDequeue, clock_afterDequeue]
          exact hnone
        refine hfinish _ (status_afterDequeue l₀) ?_ hlost hrunning (Or.inr hunknown) hsane
          fun _ _ => Or.inr hunknown
        obtain ⟨csm, files, ea, hframe⟩ := afterDequeue_frame l₀
        rw [hframe]
        rfl
      | none =>
        rw [hnext] at h
        obtain ⟨rfl, hack⟩ := transmitEmptyAck_none h
        refine hfinish _ rfl rfl hnone' hrunning hack hsane fun _ _ => Or.inl ?_
        rw [hpayloads]
        exact hnext
    · rename_i hclosed
      obtain ⟨rfl, hack⟩ := transmitEmptyAck_none h
      exact hfinish _ rfl rfl hnone' hrunning hack hsane fun hstatus hwindow =>
        absurd ⟨hwindow, hstatus⟩ hclosed

/-- **The last step.** A step that sends nothing, and does not fail, leaves a silent link that is
not due. -/
theorem silent_of_none (h : l₀.nextTransmit = some (l, none))
    (hrunning : l.isError = false) (hsane : Sane l) : Silent l ∧ ¬ Due l := by
  -- a retransmission would have been sent
  have hresend : ∀ {l₁ : LinkLayer} {seq : UInt8}, l₁.nextRetransmitSeq = some seq →
      l₁.retransmitOne seq ≠ (l, none) := by
    intro l₁ seq hseq hbad
    have hsecond : (l₁.retransmitOne seq).2 = none := by rw [hbad]
    have hfirst : (l₁.retransmitOne seq).1 = l := by rw [hbad]
    have hsame : l = l₁ := by
      rw [← hfirst]
      refine retransmitOne_kept hsecond ?_
      rw [hfirst]
      exact hrunning
    subst hsame
    have herror := retransmitOne_none hsane hseq hsecond
    rw [hfirst, hrunning] at herror
    cases herror
  rcases Bool.eq_false_or_eq_true l₀.isError with herror | herror
  · rw [nextTransmit_of_error herror] at h
    obtain ⟨rfl, -⟩ := Prod.mk.inj (Option.some.inj h)
    rw [hrunning] at herror
    cases herror
  · cases hlingo : l₀.lingo.queueTx with
    | cons body rest =>
      rw [nextTransmit_of_lingo herror hlingo] at h
      split at h
      · cases (Prod.mk.inj (Option.some.inj h)).2
      · obtain ⟨rfl, -⟩ := Prod.mk.inj (Option.some.inj h)
        cases hrunning
    | nil =>
      by_cases hdown : l₀.status = .downgrade
      · rw [nextTransmit_of_downgrade hdown hlingo] at h
        split at h
        · obtain ⟨rfl, -⟩ := Prod.mk.inj (Option.some.inj h)
          cases hrunning
        · rename_i hnone
          obtain ⟨rfl, -⟩ := Prod.mk.inj (Option.some.inj h)
          have hother : ∀ state : LinkStatus, state ≠ .downgrade → l₀.status = state → False :=
            fun state hne hbad => hne (hbad.symm.trans hdown)
          refine ⟨⟨hrunning, hlingo, fun _ => by simpa using hnone, ?_, ?_, ?_, ?_, ?_⟩, ?_⟩
          · exact fun hbad => (hother _ (by decide) hbad).elim
          · exact fun hbad => (hother _ (by decide) hbad).elim
          · exact fun hbad => (hother _ (by decide) hbad).elim
          · exact fun hbad => (hother _ (by decide) hbad).elim
          · exact fun hbad => (hother _ (by decide) hbad).elim
          · intro hdue
            cases hdue with
            | detect hbad => exact hother _ (by decide) hbad
            | retransmit hbad =>
              rcases hbad with hbad | hbad
              · exact hother _ (by decide) hbad
              · rw [hdown] at hbad
                cases hbad
            | ack hbad =>
              rw [hdown] at hbad
              cases hbad
      · rw [nextTransmit_of_iap2 herror hdown hlingo] at h
        unfold LinkLayer.nextIap2Transmit at h
        split at h
        · rename_i hstatus
          exact silent_of_detecting (Option.some.inj h) hstatus hrunning hlingo
        · split at h
          · rename_i hstatus
            exact silent_of_negotiating h hstatus hresend hrunning hlingo
          · split at h
            · rename_i hdata
              exact silent_of_data h hdata hresend hrunning hlingo hsane
            · rename_i hdetecting hnegotiating hdata
              cases hstatus : l₀.status with
              | detecting => exact absurd hstatus hdetecting
              | negotiating => exact absurd hstatus hnegotiating
              | downgrade => exact absurd hstatus hdown
              | error e => simp [LinkLayer.isError, hstatus] at herror
              | writable | unwritable | recovery =>
                rw [hstatus] at hdata
                exact absurd rfl hdata

end Catplay.Analysis.Link
