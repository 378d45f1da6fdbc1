import Catplay.Analysis.Link.Deadlines

/-!
# Reconciling at a fixed clock

What repeated calls of `reconcile` do to a link in the data phase while the clock stands still.
A link whose list of missing packets starts with a number that is not outstanding sends no packet
again and no payload (`Mute`). A link without missing packets whose due packets have tries left
stays clear of `RetransmissionsExceeded` (`Spared`). A link that always finds a packet to send
again runs out of tries (`Pressed`).
-/

set_option autoImplicit false

namespace Catplay.Analysis.Link

open Catplay.Library Catplay.Library.Run Catplay.Model.Link

/-! ## Calls of `reconcile` -/

/-- One `reconcile` with the given budget. -/
def reconcileStep (l : LinkLayer) (txBudget : Nat) : Option LinkLayer :=
  (l.reconcile txBudget).map (·.1)

/-- How often the packet with the number `seq` is sent. An empty ACK carries the number of the
packet before it, but it is not that packet. -/
def transmissions (seq : ModSeq8) (frames : List PacketOrDetect) : Nat :=
  frames.countP fun
    | .packet p => p.isAckable && p.header.seq == seq
    | _ => false

/-- The link after a frame was handed to the transport. -/
def afterWrite (l : LinkLayer) (next : PacketOrDetect) : LinkLayer :=
  (l.sendEvent (.write next)).refreshDataStatus

variable {l l' : LinkLayer} {p : Packet} {entry : RetransmitEntry} {seq : UInt8}

/-- **The rule for `reconcile`.** What draining the events and every transmission preserve, a
call preserves. -/
theorem reconcile_invariant (I : LinkLayer → Prop) (hdrain : ∀ l, I l → I l.drainEvents)
    (hidle : ∀ l l', I l → l.nextTransmit = some (l', none) → I l')
    (hwrite : ∀ l l' next, I l → l.nextTransmit = some (l', some next) → I (afterWrite l' next))
    {txBudget : Nat} (hl : I l) (h : reconcileStep l txBudget = some l') :
    I l' := by
  obtain ⟨⟨l', more⟩, hloop, rfl⟩ := Option.map_eq_some_iff.mp h
  unfold LinkLayer.reconcile at hloop
  have hstart := hdrain l hl
  clear h hl
  generalize l.drainEvents = l₀ at hloop hstart
  induction txBudget generalizing l₀ with
  | zero =>
    obtain ⟨rfl, -⟩ := Prod.mk.inj (Option.some.inj hloop)
    exact hstart
  | succ budget ih =>
    obtain ⟨⟨l₁, next⟩, hnext, hrest⟩ := Option.bind_eq_some_iff.mp hloop
    cases next with
    | none =>
      obtain ⟨rfl, -⟩ := Prod.mk.inj (Option.some.inj hrest)
      exact hidle l₀ l₁ hstart hnext
    | some frame => exact ih _ hrest (hwrite l₀ l₁ frame hstart hnext)

/-- In the data phase, without iAP1 payloads. -/
theorem nextTransmit_of_data (hdata : l.status.isData = true)
    (hlingo : l.lingo.queueTx = []) : l.nextTransmit = l.transmitData := by
  have herror : l.isError = false := by
    unfold LinkLayer.isError
    split
    · rename_i error hstatus
      rw [hstatus] at hdata
      cases hdata
    · rfl
  have hdown : l.status ≠ .downgrade := by
    intro hbad
    rw [hbad] at hdata
    cases hdata
  rw [nextTransmit_of_iap2 herror hdown hlingo, nextIap2Transmit_of_data hdata]

/-! ## What a link does that sends nothing again -/

/-- What the choice of a retransmission and of a payload looks at, apart from the queues. -/
structure SameWindow (l l' : LinkLayer) : Prop where
  missingPsns : l'.missingPsns = l.missingPsns
  retransmitMap : l'.retransmitMap = l.retransmitMap
  clock : l'.clock = l.clock
  localLsp : l'.localLsp = l.localLsp
  peerLsp : l'.peerLsp = l.peerLsp
  ownSeq : l'.ownSeq = l.ownSeq
  peerAck : l'.peerAck = l.peerAck
  peerSeq : l'.peerSeq = l.peerSeq
  lingo : l'.lingo = l.lingo

theorem SameWindow.refl (l : LinkLayer) : SameWindow l l :=
  ⟨rfl, rfl, rfl, rfl, rfl, rfl, rfl, rfl, rfl⟩

theorem SameWindow.trans {l₁ l₂ l₃ : LinkLayer} (h₁ : SameWindow l₁ l₂) (h₂ : SameWindow l₂ l₃) :
    SameWindow l₁ l₃ :=
  ⟨h₂.missingPsns.trans h₁.missingPsns, h₂.retransmitMap.trans h₁.retransmitMap,
    h₂.clock.trans h₁.clock, h₂.localLsp.trans h₁.localLsp, h₂.peerLsp.trans h₁.peerLsp,
    h₂.ownSeq.trans h₁.ownSeq, h₂.peerAck.trans h₁.peerAck, h₂.peerSeq.trans h₁.peerSeq,
    h₂.lingo.trans h₁.lingo⟩

theorem SameWindow.drainEvents (l : LinkLayer) : SameWindow l l.drainEvents :=
  ⟨rfl, rfl, rfl, rfl, rfl, rfl, rfl, rfl, rfl⟩

theorem SameWindow.isWindowWritable (h : SameWindow l l') :
    l'.isWindowWritable = l.isWindowWritable := by
  unfold LinkLayer.isWindowWritable
  rw [h.peerAck, h.ownSeq, h.peerLsp]

theorem SameWindow.refreshDataStatus (l : LinkLayer) : SameWindow l l.refreshDataStatus := by
  rcases refreshDataStatus_cases l with hsame | ⟨status, -, -, hchange⟩
  · rw [hsame]
    exact .refl l
  · rw [hchange]
    exact ⟨rfl, rfl, rfl, rfl, rfl, rfl, rfl, rfl, rfl⟩

theorem nextPayload_refreshDataStatus (l : LinkLayer) :
    l.refreshDataStatus.nextPayload.2 = l.nextPayload.2 := by
  rcases refreshDataStatus_cases l with hsame | ⟨status, -, -, hchange⟩
  · rw [hsame]
  · rw [hchange]
    exact nextPayload_congr rfl rfl rfl rfl

/-- In the data phase the status is the one that the window and the missing packets call for. -/
theorem status_refreshDataStatus (hdata : l.status.isData = true) :
    l.refreshDataStatus.status = l.nextDataStatus := by
  unfold LinkLayer.refreshDataStatus
  simp only [hdata, not_true_eq_false, if_false]
  split
  · rfl
  · rename_i hsame
    exact not_not.mp hsame

/-- A frame that was written, and the refresh of the status after it. -/
theorem SameWindow.afterWrite (l : LinkLayer) (next : PacketOrDetect) :
    SameWindow l (afterWrite l next) := by
  have hsent : SameWindow l (l.sendEvent (.write next)) :=
    ⟨rfl, rfl, rfl, rfl, rfl, rfl, rfl, rfl, rfl⟩
  exact hsent.trans (SameWindow.refreshDataStatus _)

theorem nextPayload_afterWrite (l : LinkLayer) (next : PacketOrDetect) :
    (afterWrite l next).nextPayload.2 = l.nextPayload.2 :=
  (nextPayload_refreshDataStatus _).trans (nextPayload_congr rfl rfl rfl rfl)

theorem status_afterWrite (hdata : l.status.isData = true)
    (next : PacketOrDetect) : (afterWrite l next).status = l.nextDataStatus := by
  have hsent : (l.sendEvent (.write next)).status.isData = true := hdata
  exact status_refreshDataStatus hsent

theorem writes_afterWrite (l : LinkLayer) (next : PacketOrDetect) :
    writes (afterWrite l next).events = writes l.events ++ [next] := by
  have hquiet := (refreshDataStatus_quiet (l.sendEvent (.write next))).1
  unfold afterWrite
  rw [hquiet]
  simp [LinkLayer.sendEvent, writes, LinkEvent.write?]

/-- The next payload can be sent: the number of the peer is known, there is a session for it, and
it fits into a packet. -/
def NextFits (l : LinkLayer) : Prop :=
  ∃ sessionType payload, l.nextPayload.2 = some (sessionType, payload) ∧
    l.peerSeq.isSome = true ∧ (l.findSessionOfType sessionType).isSome = true ∧
    payload.length + Packet.packetOverhead ≤ l.peerLsp.maxLen.toNat

theorem SameWindow.nextFits (h : SameWindow l l')
    (hnext : l'.nextPayload.2 = l.nextPayload.2) (hfits : NextFits l') : NextFits l := by
  obtain ⟨sessionType, payload, htaken, hpeer, hsession, hsize⟩ := hfits
  refine ⟨sessionType, payload, hnext ▸ htaken, h.peerSeq ▸ hpeer, ?_, h.peerLsp ▸ hsize⟩
  unfold LinkLayer.findSessionOfType at hsession ⊢
  rw [h.localLsp] at hsession
  exact hsession

/-- A step of the data phase that sends nothing again. -/
inductive DataStep (l : LinkLayer) : LinkLayer → Option PacketOrDetect → Prop
  /-- Nothing is sent, or an empty ACK; a payload is taken only to be lost. -/
  | wait (l' : LinkLayer) (next : Option PacketOrDetect) (hsame : SameWindow l l')
      (hstatus : l'.status = l.status) (hevents : l'.events = l.events)
      (hqueue : l'.nextPayload.2 = l.nextPayload.2 ∨ l.peerSeq = none)
      (hnext : ∀ frame, next = some frame → ∀ seq, transmissions seq [frame] = 0) :
      DataStep l l' next
  | tooLong (l' : LinkLayer) (transmitting limit : Nat)
      (hstatus : l'.status = .error (.transmitMaxLenViolation transmitting limit))
      (hevents : writes l'.events = writes l.events) : DataStep l l' none
  | payload (l' : LinkLayer) (p : Packet) (key : UInt8) (entry : RetransmitEntry)
      (hwindow : l.isWindowWritable = true) (hwritable : l.status = .writable)
      (hsend : NextFits l) (hmissing : l'.missingPsns = l.missingPsns)
      (hclock : l'.clock = l.clock) (hlsp : l'.localLsp = l.localLsp)
      (hpeer : l'.peerSeq = l.peerSeq) (hlingo : l'.lingo = l.lingo)
      (hstatus : l'.status = l.status) (hknown : l.peerSeq.isSome = true)
      (hmap : l'.retransmitMap = l.retransmitMap.insert key entry)
      (hdeadline : entry.timeoutDeadline = l.retransmitDeadline) (hretry : entry.retryCount = 0) :
      DataStep l l' (some (.packet p))

/-- An empty ACK is not a packet of its own. -/
theorem transmissions_emptyAck {ownSeq peerSeq : ModSeq8} {session : UInt8}
    (hp : Packet.newAck ownSeq peerSeq session none = some p) (seq : ModSeq8) :
    transmissions seq [.packet p] = 0 := by
  obtain ⟨hcontrol, -, -, -, hpayload⟩ := newAck_eq_some hp
  have hackable : p.isAckable = false := by
    rw [isAckable_of_ack hcontrol, hpayload]
    rfl
  simp [transmissions, hackable]

/-- The size of an ACK with a payload. -/
theorem newAck_size {ownSeq peerSeq : ModSeq8} {session : UInt8} {payload : Bytes}
    (hp : Packet.newAck ownSeq peerSeq session (some payload) = some p) :
    p.size = payload.length + Packet.packetOverhead := by
  obtain ⟨-, -, -, -, hpayload⟩ := newAck_eq_some hp
  rw [Packet.size, hpayload]

theorem transmitEmptyAck_step {next : Option PacketOrDetect}
    (h : (forgetIds l).transmitEmptyAck = some (l', next)) : DataStep l l' next := by
  unfold LinkLayer.transmitEmptyAck at h
  split at h
  · split at h
    · obtain ⟨rfl, rfl⟩ := Prod.mk.inj (Option.some.inj h)
      exact .wait _ none ⟨rfl, rfl, rfl, rfl, rfl, rfl, rfl, rfl, rfl⟩ rfl rfl
        (Or.inl (nextPayload_congr rfl rfl rfl rfl)) fun frame hframe => by cases hframe
    · obtain ⟨p, hp, heq⟩ := Option.bind_eq_some_iff.mp h
      obtain ⟨rfl, rfl⟩ := Prod.mk.inj (Option.some.inj heq)
      have hackable : p.isAckable = false := by
        obtain ⟨hcontrol, -, -, -, hpayload⟩ := newAck_eq_some hp
        rw [isAckable_of_ack hcontrol, hpayload]
        rfl
      have hkept : (forgetIds l).prepareAckable p = forgetIds l := by
        unfold LinkLayer.prepareAckable
        rw [if_neg (by rw [hackable]; decide)]
      rw [hkept]
      refine .wait _ _ ⟨rfl, rfl, rfl, rfl, rfl, rfl, rfl, rfl, rfl⟩ rfl rfl
        (Or.inl (nextPayload_congr rfl rfl rfl rfl)) fun frame hframe => ?_
      obtain rfl := Option.some.inj hframe
      exact transmissions_emptyAck hp
  · obtain ⟨rfl, rfl⟩ := Prod.mk.inj (Option.some.inj h)
    exact .wait _ none ⟨rfl, rfl, rfl, rfl, rfl, rfl, rfl, rfl, rfl⟩ rfl rfl
      (Or.inl (nextPayload_congr rfl rfl rfl rfl)) fun frame hframe => by cases hframe

theorem transmitPayload_step {next : Option PacketOrDetect}
    {sessionType : SessionType} {payload : Bytes} (hwindow : l.isWindowWritable = true)
    (hwritable : l.status = .writable) (htaken : l.nextPayload.2 = some (sessionType, payload))
    (h : (afterDequeue l).transmitPayload sessionType payload = some (l', next)) :
    DataStep l l' next := by
  obtain ⟨csm, files, ea, hframe⟩ := afterDequeue_frame l
  rw [hframe] at h
  unfold LinkLayer.transmitPayload at h
  split at h
  · -- the payload is lost, as the number of the peer is not known
    rename_i hunknown
    have hpeer : l.peerSeq = none := hunknown
    obtain ⟨rfl, rfl⟩ := Prod.mk.inj (Option.some.inj h)
    exact .wait _ none ⟨rfl, rfl, rfl, rfl, rfl, rfl, rfl, rfl, rfl⟩ rfl rfl (Or.inr hpeer)
      fun frame hframe => by cases hframe
  · rename_i peerSeq hknown
    have hpeer : l.peerSeq = some peerSeq := hknown
    obtain ⟨session, hsession, h⟩ := Option.bind_eq_some_iff.mp h
    obtain ⟨p, hp, h⟩ := Option.bind_eq_some_iff.mp h
    dsimp only at h
    split at h
    · obtain ⟨rfl, rfl⟩ := Prod.mk.inj (Option.some.inj h)
      exact .tooLong _ _ _ rfl (changeState_quiet _ _).1
    · rename_i hfits
      obtain ⟨rfl, rfl⟩ := Prod.mk.inj (Option.some.inj h)
      have hackable : p.isAckable = true := by
        obtain ⟨hcontrol, -, -, -, hpayload⟩ := newAck_eq_some hp
        rw [isAckable_of_ack hcontrol, hpayload]
        rfl
      unfold LinkLayer.prepareAckable
      rw [if_pos hackable]
      refine .payload _ p p.header.seq ⟨p, 0, l.retransmitDeadline⟩ hwindow hwritable
        ⟨sessionType, payload, htaken, by rw [hpeer]; rfl, ?_, ?_⟩ rfl rfl rfl rfl rfl rfl
        (by rw [hpeer]; rfl) rfl rfl rfl
      · have hfound : l.findSessionOfType sessionType = some session := hsession
        rw [hfound]
        rfl
      · rw [newAck_size hp] at hfits
        exact Nat.le_of_not_lt hfits

/-- **A step without a retransmission** in the data phase. -/
theorem nextTransmit_step {next : Option PacketOrDetect}
    (hdata : l.status.isData = true) (hlingo : l.lingo.queueTx = [])
    (hnone : l.nextRetransmitSeq = none) (h : l.nextTransmit = some (l', next)) :
    DataStep l l' next := by
  rw [nextTransmit_of_data hdata hlingo, transmitData_eq, hnone] at h
  dsimp only at h
  split at h
  · rename_i hopen
    cases htaken : l.nextPayload.2 with
    | some taken =>
      rw [htaken] at h
      exact transmitPayload_step hopen.1 hopen.2 htaken h
    | none =>
      rw [htaken] at h
      exact transmitEmptyAck_step h
  · exact transmitEmptyAck_step h

/-- A payload that can be sent is sent. -/
theorem NextFits.transmits (h : NextFits l) (hwritable : l.status = .writable)
    (hwindow : l.isWindowWritable = true) (hlingo : l.lingo.queueTx = [])
    (hnone : l.nextRetransmitSeq = none) :
    ∃ l' p, p.isAckable = true ∧ l.nextTransmit = some (l', some (.packet p)) := by
  obtain ⟨sessionType, payload, htaken, hknown, hsome, hsize⟩ := h
  obtain ⟨peerSeq, hpeer⟩ := Option.isSome_iff_exists.mp hknown
  obtain ⟨session, hsession⟩ := Option.isSome_iff_exists.mp hsome
  have hshort : payload.length ≤ 65525 := by
    have hmax := l.peerLsp.maxLen.toNat_lt
    unfold Packet.packetOverhead at hsize
    omega
  obtain ⟨p, hp⟩ := Option.isSome_iff_exists.mp
    ((newAck_isSome l.ownSeq peerSeq session payload).mpr hshort)
  have hlength := newAck_size hp
  have hdata : l.status.isData = true := by
    rw [hwritable]
    rfl
  obtain ⟨csm, files, ea, hframe⟩ := afterDequeue_frame l
  rw [nextTransmit_of_data hdata hlingo, transmitData_eq, hnone]
  dsimp only
  rw [if_pos ⟨hwindow, hwritable⟩, htaken, hframe]
  have hsession' : LinkLayer.findSessionOfType { forgetIds l with csm, files, ea } sessionType =
      some session := hsession
  have hp' : Packet.newAck (LinkLayer.ownSeq { forgetIds l with csm, files, ea }) peerSeq session
      (some payload) = some p := hp
  have hpeer' : LinkLayer.peerSeq { forgetIds l with csm, files, ea } = some peerSeq := hpeer
  have hfits : ¬ p.size > (LinkLayer.takeOwnSeq
      { forgetIds l with csm, files, ea }).peerLsp.maxLen.toNat := by
    rw [hlength]
    exact Nat.not_lt.mpr hsize
  have hackable : p.isAckable = true := by
    obtain ⟨hcontrol, -, -, -, hpayload⟩ := newAck_eq_some hp
    rw [isAckable_of_ack hcontrol, hpayload]
    rfl
  unfold LinkLayer.transmitPayload
  rw [hpeer']
  dsimp only
  rw [hsession', Option.bind_eq_bind, Option.bind_some, hp', Option.bind_eq_bind, Option.bind_some,
    if_neg hfits]
  exact ⟨_, p, hackable, rfl⟩

/-! ## A link that sends no packet again -/

/-- An iAP1 payload ends the link, or it recovers from a loss of packets that it no longer has. -/
inductive Mute (l : LinkLayer) : Prop
  | failed (error : LinkError) (hstatus : l.status = .error error)
      (hother : error ≠ .retransmissionsExceeded)
  | legacy (hdata : l.status.isData = true) (hlingo : l.lingo.queueTx ≠ [])
  | stuck (seq : UInt8) (rest : List UInt8) (hstatus : l.status = .recovery)
      (hmissing : l.missingPsns = seq :: rest) (hgone : l.retransmitMap seq = none)

theorem Mute.status (h : Mute l) :
    l.status ≠ .error .retransmissionsExceeded := by
  intro hbad
  cases h with
  | failed error hstatus hother =>
    rw [hstatus] at hbad
    exact hother (LinkStatus.error.inj hbad)
  | legacy hdata =>
    rw [hbad] at hdata
    cases hdata
  | stuck seq rest hstatus =>
    rw [hstatus] at hbad
    cases hbad

theorem Mute.drainEvents (h : Mute l) : Mute l.drainEvents := by
  cases h with
  | failed error hstatus hother => exact .failed error hstatus hother
  | legacy hdata hlingo => exact .legacy hdata hlingo
  | stuck seq rest hstatus hmissing hgone => exact .stuck seq rest hstatus hmissing hgone

/-- A step of a mute link. -/
theorem Mute.step {next : Option PacketOrDetect} (h : Mute l)
    (hnext : l.nextTransmit = some (l', next)) :
    Mute l' ∧ writes l'.events = writes l.events ∧
      ∀ frame, next = some frame → Mute (afterWrite l' frame) ∧
        ∀ seq, transmissions seq [frame] = 0 := by
  by_cases hlingo : l.lingo.queueTx = []
  · cases h with
    | failed error hstatus hother =>
      rw [nextTransmit_of_error (by simp [LinkLayer.isError, hstatus])] at hnext
      obtain ⟨rfl, rfl⟩ := Prod.mk.inj (Option.some.inj hnext)
      exact ⟨.failed error hstatus hother, rfl, fun frame hframe => by cases hframe⟩
    | legacy hdata hbad => exact absurd hlingo hbad
    | stuck seq rest hstatus hmissing hgone =>
      have hdata : l.status.isData = true := by
        rw [hstatus]
        rfl
      have hnone : l.nextRetransmitSeq = none := by
        unfold LinkLayer.nextRetransmitSeq
        rw [hmissing]
        dsimp only
        rw [hgone]
        rfl
      cases nextTransmit_step hdata hlingo hnone hnext with
      | wait _ hsame hstatus' hevents hqueue hzero =>
        have hmissing' := hsame.missingPsns.trans hmissing
        have hgone' : l'.retransmitMap seq = none := by
          rw [hsame.retransmitMap]
          exact hgone
        have hrecovery := hstatus'.trans hstatus
        refine ⟨.stuck seq rest hrecovery hmissing' hgone', by rw [hevents], fun frame hframe =>
          ⟨?_, hzero frame hframe⟩⟩
        have hwritten := SameWindow.afterWrite l' frame
        refine .stuck seq rest ?_ (hwritten.missingPsns.trans hmissing')
          (by rw [hwritten.retransmitMap]; exact hgone')
        rw [status_afterWrite (by rw [hrecovery]; rfl)]
        unfold LinkLayer.nextDataStatus
        rw [hmissing', if_pos (List.cons_ne_nil seq rest)]
      | tooLong transmitting limit hstatus' hevents =>
        exact ⟨.failed _ hstatus' (by simp), hevents, fun frame hframe => by cases hframe⟩
      | payload p key entry hwindow hwritable =>
        rw [hstatus] at hwritable
        cases hwritable
  · obtain ⟨body, rest, hqueue⟩ := List.exists_cons_of_ne_nil hlingo
    by_cases herror : l.isError = true
    · rw [nextTransmit_of_error herror] at hnext
      obtain ⟨rfl, rfl⟩ := Prod.mk.inj (Option.some.inj hnext)
      exact ⟨h, rfl, fun frame hframe => by cases hframe⟩
    · have hrunning : l.isError = false := Bool.eq_false_iff.mpr herror
      have hdown : l.status ≠ .downgrade := by
        intro hbad
        cases h with
        | failed error hstatus => rw [hstatus] at hbad; cases hbad
        | legacy hdata => rw [hbad] at hdata; cases hdata
        | stuck seq rest hstatus => rw [hstatus] at hbad; cases hbad
      rw [nextTransmit_of_lingo hrunning hqueue, if_neg hdown] at hnext
      obtain ⟨rfl, rfl⟩ := Prod.mk.inj (Option.some.inj hnext)
      exact ⟨.failed .attemptedDowngrade rfl (by simp), (changeState_quiet _ _).1,
        fun frame hframe => by cases hframe⟩

/-- **A mute link stays mute.** It sends no packet again, and does not run out of tries. -/
theorem Mute.run (h : Mute l) {budgets : List Nat} (hrun : run reconcileStep l budgets = some l') :
    l'.status ≠ .error .retransmissionsExceeded ∧
      ∀ seq, transmissions seq (writes l'.events) = transmissions seq (writes l.events) := by
  have hkept := run_invariant (fun t : LinkLayer => Mute t ∧
      ∀ seq, transmissions seq (writes t.events) = transmissions seq (writes l.events))
    (fun s txBudget t hs hstep => reconcile_invariant
      (fun t : LinkLayer => Mute t ∧
        ∀ seq, transmissions seq (writes t.events) = transmissions seq (writes l.events))
      (fun u hu => ⟨hu.1.drainEvents, fun seq => by rw [(drainEvents_quiet u).1]; exact hu.2 seq⟩)
      (fun u u' hu hnext => by
        obtain ⟨hmute, hwrites, -⟩ := hu.1.step hnext
        exact ⟨hmute, fun seq => by rw [hwrites]; exact hu.2 seq⟩)
      (fun u u' frame hu hnext => by
        obtain ⟨-, hwrites, hframe⟩ := hu.1.step hnext
        obtain ⟨hmute, hzero⟩ := hframe frame rfl
        refine ⟨hmute, fun seq => ?_⟩
        have hsplit : transmissions seq (writes u.events ++ [frame]) =
            transmissions seq (writes u.events) + transmissions seq [frame] :=
          List.countP_append
        rw [writes_afterWrite, hwrites, hsplit, hzero seq]
        exact hu.2 seq)
      hs hstep)
    ⟨h, fun _ => rfl⟩ hrun
  exact ⟨hkept.1.status, hkept.2⟩

/-! ## A link whose due packets have tries left -/

/-- A link without missing packets that has nothing due that has been sent too often. With a
timeout of zero a packet is due as soon as it is sent, and nothing may be sent at all. -/
structure Fit (l : LinkLayer) : Prop where
  missing : l.missingPsns = []
  due : ∀ seq entry, l.retransmitMap seq = some entry → entry.timeoutDeadline ≤ l.clock →
    l.localLsp.retransmissionTimeout ≠ 0 ∧ entry.retryCount < l.localLsp.maxRetransmissions
  later : l.localLsp.retransmissionTimeout = 0 → ¬ (l.isWindowWritable = true ∧ NextFits l)

inductive Spared (l : LinkLayer) : Prop
  | failed (error : LinkError) (hstatus : l.status = .error error)
      (hother : error ≠ .retransmissionsExceeded)
  | fit (hdata : l.status.isData = true) (hlingo : l.lingo.queueTx = []) (hfit : Fit l)

theorem Spared.status (h : Spared l) :
    l.status ≠ .error .retransmissionsExceeded := by
  intro hbad
  cases h with
  | failed error hstatus hother =>
    rw [hstatus] at hbad
    exact hother (LinkStatus.error.inj hbad)
  | fit hdata =>
    rw [hbad] at hdata
    cases hdata

theorem Fit.of_same (h : Fit l) (hsame : SameWindow l l')
    (hqueue : l'.nextPayload.2 = l.nextPayload.2 ∨ l.peerSeq = none) : Fit l' := by
  refine ⟨hsame.missingPsns.trans h.missing, ?_, ?_⟩
  · rw [hsame.retransmitMap, hsame.clock, hsame.localLsp]
    exact h.due
  · rw [hsame.localLsp, hsame.isWindowWritable]
    rintro hzero ⟨hwindow, hsend⟩
    rcases hqueue with hqueue | hunknown
    · exact h.later hzero ⟨hwindow, hsame.nextFits hqueue hsend⟩
    · obtain ⟨-, -, -, hpeer, -⟩ := hsend
      rw [hsame.peerSeq, hunknown] at hpeer
      cases hpeer

/-- A packet that is sent now is not due before its timeout. -/
theorem clock_lt_retransmitDeadline (h : l.localLsp.retransmissionTimeout ≠ 0) :
    l.clock < l.retransmitDeadline := by
  have hpos : l.localLsp.retransmissionTimeout.toNat ≠ 0 := fun h0 =>
    h (UInt16.toNat_inj.mp (by simpa using h0))
  unfold LinkLayer.retransmitDeadline fromMillis
  omega

/-- The packet sent at this moment joins the others. -/
theorem Fit.insert (h : Fit l) (hzero : l.localLsp.retransmissionTimeout ≠ 0) {key : UInt8}
    (hmissing : l'.missingPsns = l.missingPsns) (hclock : l'.clock = l.clock)
    (hlsp : l'.localLsp = l.localLsp) (hmap : l'.retransmitMap = l.retransmitMap.insert key entry)
    (hdeadline : entry.timeoutDeadline = l.retransmitDeadline) : Fit l' := by
  refine ⟨hmissing.trans h.missing, ?_, fun hbad => absurd (hlsp ▸ hbad) hzero⟩
  rw [hmap, hclock, hlsp]
  intro seq kept hkept hdue
  rw [ByteMap.insert_apply] at hkept
  split at hkept
  · obtain rfl := Option.some.inj hkept
    have hlater := clock_lt_retransmitDeadline hzero
    rw [hdeadline] at hdue
    omega
  · exact h.due seq kept hkept hdue

/-- The packet that is sent again has passed its deadline. -/
theorem nextRetransmitSeq_due (hmissing : l.missingPsns = []) (h : l.nextRetransmitSeq = some seq) :
    ∃ entry, l.retransmitMap seq = some entry ∧ entry.timeoutDeadline ≤ l.clock := by
  unfold LinkLayer.nextRetransmitSeq at h
  rw [hmissing] at h
  obtain ⟨⟨q, entry⟩, hargmin, rfl⟩ := Option.map_eq_some_iff.mp h
  obtain ⟨hmem, hdue⟩ := List.mem_filter.mp (List.argmin_mem hargmin)
  exact ⟨entry, ByteMap.mem_entries.mp hmem, by simpa using hdue⟩

/-- The link after the packet kept under the number `seq` was sent once more, as `p`. -/
def resent (l : LinkLayer) (seq : UInt8) (entry : RetransmitEntry) (p : Packet) : LinkLayer :=
  { forgetIds l with
    retransmitMap := l.retransmitMap.insert seq ⟨p, entry.retryCount + 1, l.retransmitDeadline⟩ }

/-- **A retransmission**: the link has run out of tries, the number of the peer is not known, or
the packet is sent. -/
theorem retransmitOne_cases (l : LinkLayer) (hentry : l.retransmitMap seq = some entry) :
    (l.localLsp.maxRetransmissions ≤ entry.retryCount ∧
        (forgetIds l).retransmitOne seq =
          ((forgetIds l).enterErrorState .retransmissionsExceeded, none)) ∨
      (entry.retryCount < l.localLsp.maxRetransmissions ∧
        ((l.restamp entry.packet = none ∧
            (forgetIds l).retransmitOne seq = (forgetIds l, none)) ∨
          ∃ p, l.restamp entry.packet = some p ∧
            (forgetIds l).retransmitOne seq = (resent l seq entry p, some (.packet p)))) := by
  have hkept : (forgetIds l).retransmitMap seq = some entry := hentry
  have hlimit : (forgetIds l).localLsp = l.localLsp := rfl
  have hstamp : (forgetIds l).restamp entry.packet = l.restamp entry.packet := rfl
  unfold LinkLayer.retransmitOne
  rw [hkept]
  dsimp only
  rw [hlimit, hstamp]
  by_cases hexceeded : entry.retryCount ≥ l.localLsp.maxRetransmissions
  · exact Or.inl ⟨hexceeded, if_pos hexceeded⟩
  · refine Or.inr ⟨UInt8.not_le.mp hexceeded, ?_⟩
    rw [if_neg hexceeded]
    cases l.restamp entry.packet with
    | none => exact Or.inl ⟨rfl, rfl⟩
    | some p => exact Or.inr ⟨p, rfl, rfl⟩

theorem nextTransmit_retransmit (hdata : l.status.isData = true)
    (hlingo : l.lingo.queueTx = []) (hseq : l.nextRetransmitSeq = some seq) :
    l.nextTransmit = some ((forgetIds l).retransmitOne seq) := by
  rw [nextTransmit_of_data hdata hlingo, transmitData_eq, hseq]

theorem Spared.written (hdata : l.status.isData = true)
    (hlingo : l.lingo.queueTx = []) (hfit : Fit l) (frame : PacketOrDetect) :
    Spared (afterWrite l frame) := by
  have hsame := SameWindow.afterWrite l frame
  refine .fit ?_ (hsame.lingo ▸ hlingo)
    (hfit.of_same hsame (Or.inl (nextPayload_afterWrite l frame)))
  rw [status_afterWrite hdata]
  exact nextDataStatus_isData l

/-- A step of a link that is spared. -/
theorem Spared.step {next : Option PacketOrDetect} (h : Spared l)
    (hnext : l.nextTransmit = some (l', next)) :
    (next = none → Spared l') ∧ ∀ frame, next = some frame → Spared (afterWrite l' frame) := by
  cases h with
  | failed error hstatus hother =>
    rw [nextTransmit_of_error (by simp [LinkLayer.isError, hstatus])] at hnext
    obtain ⟨rfl, rfl⟩ := Prod.mk.inj (Option.some.inj hnext)
    exact ⟨fun _ => .failed error hstatus hother, fun frame hframe => by cases hframe⟩
  | fit hdata hlingo hfit =>
    cases hseq : l.nextRetransmitSeq with
    | none =>
      cases nextTransmit_step hdata hlingo hseq hnext with
      | wait _ hsame hstatus _ hqueue =>
        have hdata' : l'.status.isData = true := hstatus ▸ hdata
        have hlingo' : l'.lingo.queueTx = [] := hsame.lingo ▸ hlingo
        have hfit' := hfit.of_same hsame hqueue
        exact ⟨fun _ => .fit hdata' hlingo' hfit',
          fun frame _ => Spared.written hdata' hlingo' hfit' frame⟩
      | tooLong transmitting limit hstatus =>
        exact ⟨fun _ => .failed _ hstatus (by simp), fun frame hframe => by cases hframe⟩
      | payload p key entry hwindow _ hsend hmissing hclock hlsp _ hlingo' hstatus _ hmap
          hdeadline =>
        have hzero : l.localLsp.retransmissionTimeout ≠ 0 := fun h0 =>
          hfit.later h0 ⟨hwindow, hsend⟩
        exact ⟨fun hbad => (by cases hbad), fun frame _ => Spared.written (hstatus ▸ hdata)
          (hlingo' ▸ hlingo) (hfit.insert hzero hmissing hclock hlsp hmap hdeadline) frame⟩
    | some seq =>
      obtain ⟨entry, hentry, hdue⟩ := nextRetransmitSeq_due hfit.missing hseq
      obtain ⟨hzero, htries⟩ := hfit.due seq entry hentry hdue
      rw [nextTransmit_retransmit hdata hlingo hseq] at hnext
      have hforget : Fit (forgetIds l) :=
        hfit.of_same ⟨rfl, rfl, rfl, rfl, rfl, rfl, rfl, rfl, rfl⟩
          (Or.inl (nextPayload_congr rfl rfl rfl rfl))
      rcases retransmitOne_cases l hentry with ⟨hexceeded, -⟩ | ⟨-, hsent⟩
      · exact absurd htries (UInt8.not_lt.mpr hexceeded)
      · rcases hsent with ⟨-, hsent⟩ | ⟨p, -, hsent⟩
        · rw [hsent] at hnext
          obtain ⟨rfl, rfl⟩ := Prod.mk.inj (Option.some.inj hnext)
          exact ⟨fun _ => .fit hdata hlingo hforget, fun frame hframe => by cases hframe⟩
        · rw [hsent] at hnext
          obtain ⟨rfl, rfl⟩ := Prod.mk.inj (Option.some.inj hnext)
          have hinsert : Fit (resent l seq entry p) := hforget.insert hzero rfl rfl rfl rfl rfl
          have hdata' : (resent l seq entry p).status.isData = true := hdata
          have hlingo' : (resent l seq entry p).lingo.queueTx = [] := hlingo
          exact ⟨fun hbad => (by cases hbad), fun frame _ =>
            Spared.written hdata' hlingo' hinsert frame⟩

theorem Spared.drainEvents (h : Spared l) : Spared l.drainEvents := by
  cases h with
  | failed error hstatus hother => exact .failed error hstatus hother
  | fit hdata hlingo hfit =>
    exact .fit hdata hlingo
      (hfit.of_same (.drainEvents l) (Or.inl (nextPayload_drainEvents l)))

/-- **A link that is spared stays clear** of `RetransmissionsExceeded`. -/
theorem Spared.run (h : Spared l) {budgets : List Nat}
    (hrun : run reconcileStep l budgets = some l') :
    l'.status ≠ .error .retransmissionsExceeded := by
  have hkept := run_invariant Spared
    (fun s txBudget t hs hstep => reconcile_invariant Spared (fun _ => Spared.drainEvents)
      (fun u u' hu hnext => (hu.step hnext).1 rfl)
      (fun u u' frame hu hnext => (hu.step hnext).2 frame rfl) hs hstep) h hrun
  exact hkept.status

/-! ## A link that always finds a packet to send again -/

/-- The first missing packet is outstanding, or a packet is due that is so again, or that has
been sent too often. -/
structure Pressed (l : LinkLayer) : Prop where
  data : l.status.isData = true
  noLegacy : l.lingo.queueTx = []
  known : ∀ seq entry, l.retransmitMap seq = some entry →
    l.peerSeq.isSome = true ∨ entry.packet.header.control.isSyn = true
  due : (∃ seq rest, l.missingPsns = seq :: rest ∧ (l.retransmitMap seq).isSome = true) ∨
    (l.missingPsns = [] ∧ ∃ seq entry, l.retransmitMap seq = some entry ∧
      entry.timeoutDeadline ≤ l.clock ∧ (l.localLsp.retransmissionTimeout = 0 ∨
        l.localLsp.maxRetransmissions ≤ entry.retryCount))

/-- The retransmissions that are left before the link gives up. -/
def tries (l : LinkLayer) : Nat :=
  ByteMap.total l.retransmitMap fun entry =>
    l.localLsp.maxRetransmissions.toNat - entry.retryCount.toNat

theorem Pressed.next (h : Pressed l) : ∃ seq, l.nextRetransmitSeq = some seq := by
  rcases h.due with ⟨seq, rest, hmissing, hkept⟩ | ⟨hmissing, seq, entry, hentry, hdue, -⟩
  · refine ⟨seq, ?_⟩
    unfold LinkLayer.nextRetransmitSeq
    rw [hmissing]
    exact if_pos hkept
  · exact Option.isSome_iff_exists.mp
      ((retransmit_due_iff hmissing).mpr ⟨seq, entry, hentry, hdue⟩)

/-- The packet that was sent again keeps the link pressed. -/
theorem Pressed.insert (h : Pressed l) (hentry : l.retransmitMap seq = some entry)
    (htries : entry.retryCount < l.localLsp.maxRetransmissions)
    (hstamp : l.restamp entry.packet = some p) (hdata : l'.status.isData = true)
    (hsame : SameWindow (resent l seq entry p) l') : Pressed l' := by
  have hmap : l'.retransmitMap =
      l.retransmitMap.insert seq ⟨p, entry.retryCount + 1, l.retransmitDeadline⟩ :=
    hsame.retransmitMap
  have hmissing' : l'.missingPsns = l.missingPsns := hsame.missingPsns
  have hlsp : l'.localLsp = l.localLsp := hsame.localLsp
  have hclock : l'.clock = l.clock := hsame.clock
  have hpeer : l'.peerSeq = l.peerSeq := hsame.peerSeq
  have hlingo : l'.lingo = l.lingo := hsame.lingo
  refine ⟨hdata, hlingo ▸ h.noLegacy, fun key kept hkept => ?_, ?_⟩
  · rw [hmap, ByteMap.insert_apply] at hkept
    rw [hpeer]
    split at hkept
    · obtain rfl := Option.some.inj hkept
      unfold LinkLayer.restamp at hstamp
      split at hstamp
      · rename_i hsyn
        obtain rfl := Option.some.inj hstamp
        exact Or.inr hsyn
      · obtain ⟨peerSeq, hknown, -⟩ := Option.map_eq_some_iff.mp hstamp
        exact Or.inl (by rw [hknown]; rfl)
    · exact h.known key kept hkept
  · rw [hmissing', hmap, hclock, hlsp]
    rcases h.due with ⟨first, rest, hmissing, hkept⟩ | ⟨hmissing, key, kept, hkept, hdue, hlast⟩
    · refine Or.inl ⟨first, rest, hmissing, ?_⟩
      rw [ByteMap.insert_apply]
      split
      · rfl
      · exact hkept
    · refine Or.inr ⟨hmissing, ?_⟩
      by_cases hkey : key = seq
      · -- the packet was not sent too often, so it is due again at once
        subst hkey
        obtain rfl : kept = entry := Option.some.inj (hkept.symm.trans hentry)
        have hzero : l.localLsp.retransmissionTimeout = 0 :=
          hlast.resolve_right (UInt8.not_le.mpr htries)
        refine ⟨key, _, ByteMap.insert_self _ _ _, ?_, Or.inl hzero⟩
        unfold LinkLayer.retransmitDeadline fromMillis
        rw [hzero]
        exact Nat.le_of_eq rfl
      · exact ⟨key, kept, by rw [ByteMap.insert_apply, if_neg hkey]; exact hkept, hdue, hlast⟩

/-- **A step of a pressed link** uses up a try, or there is none left. -/
theorem Pressed.step (h : Pressed l) :
    (∃ l', l.nextTransmit = some (l', none) ∧ l'.status = .error .retransmissionsExceeded) ∨
      ∃ l' frame, l.nextTransmit = some (l', some frame) ∧ Pressed (afterWrite l' frame) ∧
        tries (afterWrite l' frame) < tries l := by
  obtain ⟨seq, hseq⟩ := h.next
  obtain ⟨entry, hentry⟩ := nextRetransmitSeq_kept hseq
  rw [nextTransmit_retransmit h.data h.noLegacy hseq]
  rcases retransmitOne_cases l hentry with ⟨-, hsent⟩ | ⟨htries, hsent⟩
  · rw [hsent]
    exact Or.inl ⟨_, rfl, rfl⟩
  · rcases hsent with ⟨hunknown, -⟩ | ⟨p, hstamp, hsent⟩
    · exfalso
      unfold LinkLayer.restamp at hunknown
      split at hunknown
      · cases hunknown
      · rename_i hsyn
        rcases h.known seq entry hentry with hknown | hbad
        · rw [Option.map_eq_none_iff.mp hunknown] at hknown
          cases hknown
        · exact hsyn hbad
    · rw [hsent]
      have hsame := SameWindow.afterWrite (resent l seq entry p) (.packet p)
      have hdata : (resent l seq entry p).status.isData = true := h.data
      refine Or.inr ⟨_, _, rfl, ?_, ?_⟩
      · refine h.insert hentry htries hstamp ?_ hsame
        rw [status_afterWrite hdata]
        exact nextDataStatus_isData _
      · unfold tries
        rw [hsame.retransmitMap, hsame.localLsp]
        refine ByteMap.total_insert_lt hentry ?_
        have hlt : entry.retryCount.toNat < l.localLsp.maxRetransmissions.toNat := htries
        have hmax := l.localLsp.maxRetransmissions.toNat_lt
        have hnext : (entry.retryCount + 1).toNat = entry.retryCount.toNat + 1 := by
          rw [UInt8.toNat_add]
          show (entry.retryCount.toNat + 1) % 256 = _
          omega
        show l.localLsp.maxRetransmissions.toNat - (entry.retryCount + 1).toNat <
          l.localLsp.maxRetransmissions.toNat - entry.retryCount.toNat
        omega

/-- **A pressed link gives up**, within as many frames as it has tries left. -/
theorem Pressed.exceeds {n : Nat} (h : Pressed l) (htries : tries l < n) :
    ∃ l' more, LinkLayer.transmitLoop n l = some (l', more) ∧
      l'.status = .error .retransmissionsExceeded := by
  induction n generalizing l with
  | zero => exact absurd htries (Nat.not_lt_zero _)
  | succ n ih =>
    unfold LinkLayer.transmitLoop
    rcases h.step with ⟨l', hnext, hstatus⟩ | ⟨l', frame, hnext, hpressed, hfewer⟩
    · rw [hnext]
      exact ⟨l', false, rfl, hstatus⟩
    · rw [hnext]
      exact ih hpressed (Nat.lt_of_lt_of_le hfewer (Nat.le_of_lt_succ htries))

theorem Pressed.drainEvents (h : Pressed l) : Pressed l.drainEvents :=
  ⟨h.data, h.noLegacy, h.known, h.due⟩

/-- One call with a large budget is enough. -/
theorem Pressed.run (h : Pressed l) :
    ∃ budgets l', run reconcileStep l budgets = some l' ∧
      l'.status = .error .retransmissionsExceeded := by
  obtain ⟨l', more, hloop, hstatus⟩ := h.drainEvents.exceeds (Nat.lt_succ_self _)
  refine ⟨[tries l.drainEvents + 1], l', run_cons_eq_some.mpr ⟨l', ?_, rfl⟩, hstatus⟩
  unfold reconcileStep LinkLayer.reconcile
  rw [hloop]
  rfl

/-- With a timeout of zero a payload that is sent makes the link give up. -/
theorem NextFits.exceeds (h : NextFits l) (hmissing : l.missingPsns = [])
    (hzero : l.localLsp.retransmissionTimeout = 0) (hwritable : l.status = .writable)
    (hwindow : l.isWindowWritable = true) (hlingo : l.lingo.queueTx = [])
    (hnone : l.nextRetransmitSeq = none) :
    ∃ budgets l', run reconcileStep l budgets = some l' ∧
      l'.status = .error .retransmissionsExceeded := by
  have hdata : l.status.isData = true := by
    rw [hwritable]
    rfl
  have hdrained := SameWindow.drainEvents l
  have hsend : NextFits l.drainEvents := by
    obtain ⟨sessionType, payload, htaken, hrest⟩ := h
    exact ⟨sessionType, payload, (nextPayload_drainEvents l).trans htaken, hrest⟩
  obtain ⟨l₁, p, hackable, hnext⟩ := hsend.transmits hwritable hwindow hlingo hnone
  have hpressed : Pressed (afterWrite l₁ (.packet p)) := by
    have hwritten := SameWindow.afterWrite l₁ (.packet p)
    have hstep : DataStep l.drainEvents l₁ (some (.packet p)) :=
      nextTransmit_step hdata hlingo hnone hnext
    cases hstep with
    | wait _ _ _ _ _ hbad =>
      have hcount := hbad _ rfl p.header.seq
      simp [transmissions, hackable] at hcount
    | payload _ key entry _ _ _ hmissing' hclock hlsp hpeer hlingo' hstatus hpeerKnown hmap
        hdeadline hretry =>
      have hdata' : l₁.status.isData = true := hstatus ▸ hdata
      refine ⟨?_, ?_, fun seq kept hkept => ?_, Or.inr ⟨?_, key, entry, ?_, ?_, Or.inl ?_⟩⟩
      · rw [status_afterWrite hdata']
        exact nextDataStatus_isData l₁
      · rw [hwritten.lingo, hlingo']
        exact hlingo
      · rw [hwritten.peerSeq, hpeer]
        exact Or.inl hpeerKnown
      · rw [hwritten.missingPsns, hmissing']
        exact hmissing
      · rw [hwritten.retransmitMap, hmap]
        exact ByteMap.insert_self _ _ _
      · rw [hdeadline, hwritten.clock, hclock]
        unfold LinkLayer.retransmitDeadline fromMillis
        have hzero' : l.drainEvents.localLsp.retransmissionTimeout = 0 := hzero
        rw [hzero']
        exact Nat.le_of_eq rfl
      · rw [hwritten.localLsp, hlsp]
        exact hzero
  obtain ⟨l', more, hloop, hstatus⟩ := hpressed.exceeds (Nat.lt_succ_self _)
  refine ⟨[tries (afterWrite l₁ (.packet p)) + 1 + 1], l', run_cons_eq_some.mpr ⟨l', ?_, rfl⟩,
    hstatus⟩
  unfold reconcileStep LinkLayer.reconcile LinkLayer.transmitLoop
  rw [hnext]
  have hrest : LinkLayer.transmitLoop (tries (afterWrite l₁ (.packet p)) + 1)
      (l₁.sendEvent (.write (.packet p))).refreshDataStatus = some (l', more) := hloop
  show (LinkLayer.transmitLoop (tries (afterWrite l₁ (.packet p)) + 1)
    (l₁.sendEvent (.write (.packet p))).refreshDataStatus).map (·.1) = some l'
  rw [hrest]
  rfl

end Catplay.Analysis.Link
