import Catplay.Library.Maps
import Catplay.Model.Link.Files
import Mathlib.Data.List.MinMax

/-!
# The iAP2 link layer

`core/catplay_iap2_link/src/link_layer.rs`. One `LinkLayer` is one end of a link: it
detects the peer, negotiates the link parameters, and then sends and acknowledges
packets in a window. It is driven by two calls, `reconcile`, which emits frames, and
`read`, which takes one frame in. Everything it hands to its callback is appended to
`events`. The clock is a number of nanoseconds. A function that can panic returns an
`Option`, with `none` for the panic.
-/

set_option autoImplicit false

namespace Catplay.Model.Link

open Catplay.Library

inductive LinkError
  | reset
  | retransmissionsExceeded
  | linkNegotiationRoundsExceeded
  | eof
  | recvMaxLenViolation (received limit : Nat)
  | transmitMaxLenViolation (transmitting limit : Nat)
  | remoteAttemptedUpgrade
  | attemptedUpgrade
  | remoteAttemptedDowngrade
  | attemptedDowngrade
  deriving DecidableEq, Repr

inductive LinkStatus
  | detecting
  | negotiating
  | writable
  | unwritable
  | recovery
  | downgrade
  | error (error : LinkError)
  deriving DecidableEq, Repr

/-- The states of the data phase, the ones `refresh_data_status` moves between. -/
def LinkStatus.isData : LinkStatus → Bool
  | writable | unwritable | recovery => true
  | _ => false

inductive LinkEvent
  | readCsm (payload : Bytes)
  | readLegacy (body : Bytes)
  | write (next : PacketOrDetect)
  | status (status : LinkStatus)
  | fileTransfer (fileId : UInt8) (event : FileTransferEvent)
  deriving DecidableEq, Repr

structure PendingAck where
  unackedPackets : Nat := 0
  deadline : Option Nat := none
  outOfOrderIds : List UInt8 := []
  needsDetectAcknowledge : Bool := false
  force : Bool := false
  deriving DecidableEq, Repr

def PendingAck.reset : PendingAck := {}

def PendingAck.addOutOfOrderSeq (self : PendingAck) (seq : UInt8) : PendingAck :=
  if seq ∈ self.outOfOrderIds then self
  else { self with outOfOrderIds := self.outOfOrderIds ++ [seq] }

structure RetransmitEntry where
  packet : Packet
  retryCount : UInt8
  timeoutDeadline : Nat
  deriving DecidableEq, Repr

/-- A session whose payloads are queued as they are. -/
structure PayloadSession where
  queueTx : List Bytes := []
  deriving DecidableEq, Repr

def PayloadSession.enqueueTx (self : PayloadSession) (packet : Bytes) : PayloadSession :=
  { self with queueTx := self.queueTx ++ [packet] }

def PayloadSession.dequeueTx (self : PayloadSession) : PayloadSession × Option Bytes :=
  ({ self with queueTx := self.queueTx.tail }, self.queueTx.head?)

structure LinkLayer where
  /-- We are either a server (host) or an accessory. -/
  server : Bool
  status : LinkStatus
  lspNegotiator : LSPNegotiator
  negotiation : Negotiation
  localLsp : LSPPayload
  peerLsp : LSPPayload
  peerSeq : Option ModSeq8
  ownSeq : ModSeq8
  peerAck : Option ModSeq8
  clock : Nat
  outOfOrder : ByteMap Packet
  retransmitMap : ByteMap RetransmitEntry
  /-- `EakState`: the missing packet numbers. -/
  missingPsns : List UInt8
  synTransmitted : Option Nat
  detectLastTransmit : Option Nat
  files : FileSession
  csm : PayloadSession
  ea : PayloadSession
  lingo : PayloadSession
  pendingAck : PendingAck
  events : List LinkEvent

/-- Milliseconds in units of the clock. -/
def fromMillis (millis : Nat) : Nat := millis * 1000000

namespace LinkLayer

def detectRetransmit : Nat := fromMillis 200

/-- `with_clock_and_lsp_negotiator`: a fresh link. Its `reconcile(0)` finds nothing to do. -/
def withClockAndLspNegotiator (server : Bool) (clock : Nat) (lspNegotiator : LSPNegotiator) :
    LinkLayer where
  server
  status := .detecting
  lspNegotiator
  negotiation := .new lspNegotiator.start
  localLsp := .negotiating
  peerLsp := .negotiating
  peerSeq := none
  ownSeq := if server then 0x10 else 0x20
  peerAck := none
  clock
  outOfOrder := .empty
  retransmitMap := .empty
  missingPsns := []
  synTransmitted := none
  detectLastTransmit := none
  files := .new server
  csm := {}
  ea := {}
  lingo := {}
  pendingAck := {}
  events := []

/-! ## Status and events -/

def isDowngrade (self : LinkLayer) : Bool := self.status = .downgrade

def isError (self : LinkLayer) : Bool :=
  match self.status with
  | .error _ => true
  | _ => false

def sendEvent (self : LinkLayer) (ev : LinkEvent) : LinkLayer :=
  { self with events := self.events ++ [ev] }

def changeState (self : LinkLayer) (state : LinkStatus) : LinkLayer :=
  { self with status := state }.sendEvent (.status state)

def enterErrorState (self : LinkLayer) (error : LinkError) : LinkLayer :=
  self.changeState (.error error)

/-- Without an acknowledgement so far, everything may be sent. -/
def isWindowWritable (self : LinkLayer) : Bool :=
  match self.peerAck with
  | none => true
  | some peerAck => self.ownSeq - peerAck ≤ self.peerLsp.maxOutgoing

/-- The status that the window and the missing packets call for in the data phase. -/
def nextDataStatus (self : LinkLayer) : LinkStatus :=
  if self.missingPsns ≠ [] then .recovery
  else if self.isWindowWritable then .writable
  else .unwritable

def refreshDataStatus (self : LinkLayer) : LinkLayer :=
  if ¬ self.status.isData then self
  else if self.status ≠ self.nextDataStatus then self.changeState self.nextDataStatus
  else self

def drainEvents (self : LinkLayer) : LinkLayer :=
  { self with
    files := { self.files with localEvents := [] }
    events := self.events ++ self.files.localEvents.map fun ev => .fileTransfer ev.1 ev.2 }

/-! ## Transmission -/

def takeOwnSeq (self : LinkLayer) : LinkLayer := { self with ownSeq := self.ownSeq + 1 }

/-- When a packet sent now is retransmitted. -/
def retransmitDeadline (self : LinkLayer) : Nat :=
  self.clock + fromMillis self.localLsp.retransmissionTimeout.toNat

/-- A packet that must be acknowledged is kept for retransmission. -/
def prepareAckable (self : LinkLayer) (packet : Packet) : LinkLayer :=
  if packet.isAckable then
    let entry : RetransmitEntry :=
      { packet, retryCount := 0, timeoutDeadline := self.retransmitDeadline }
    { self with retransmitMap := self.retransmitMap.insert packet.header.seq entry }
  else self

def counterOffer (self : LinkLayer) (offer : LSPPayload) (negotiationCounter : Nat) :
    Option LSPPayload :=
  if offer.sessions.any fun f => f.sessionType = .control then
    self.lspNegotiator.counter offer negotiationCounter
  else some self.lspNegotiator.start

def findSessionOfType (self : LinkLayer) (sessionType : SessionType) : Option UInt8 :=
  (self.localLsp.sessions.find? fun s => s.sessionType = sessionType).map (·.id)

/-- The packet to retransmit: the first one reported missing, else the one whose deadline
passed first. -/
def nextRetransmitSeq (self : LinkLayer) : Option UInt8 :=
  match self.missingPsns with
  | seq :: _ => if (self.retransmitMap seq).isSome then some seq else none
  | [] =>
    (List.argmin (fun e : UInt8 × RetransmitEntry => e.2.timeoutDeadline)
      ((ByteMap.entries self.retransmitMap).filter fun e =>
        e.2.timeoutDeadline ≤ self.clock)).map (·.1)

/-- A SYN carries no acknowledgement; anything else needs the peer's number. -/
def restamp (self : LinkLayer) (packet : Packet) : Option Packet :=
  if packet.header.control.isSyn then some packet
  else self.peerSeq.map fun peerSeq =>
    { packet with header := { packet.header with ack := peerSeq } }

def retransmitOne (self : LinkLayer) (seq : UInt8) : LinkLayer × Option PacketOrDetect :=
  match self.retransmitMap seq with
  | none => (self, none)
  | some entry =>
    if entry.retryCount ≥ self.localLsp.maxRetransmissions then
      (self.enterErrorState .retransmissionsExceeded, none)
    else
      match self.restamp entry.packet with
      | none => (self, none)
      | some packet =>
        let entry : RetransmitEntry :=
          { packet, retryCount := entry.retryCount + 1, timeoutDeadline := self.retransmitDeadline }
        ({ self with retransmitMap := self.retransmitMap.insert seq entry }, some (.packet packet))

def takePendingNegotiationTransmit (self : LinkLayer) :
    Option (LinkLayer × Option PacketOrDetect) :=
  let (negotiation, tx) := self.negotiation.takePendingTx
  let self := { self with negotiation }
  match tx, self.peerSeq with
  | some (.synAck lsp), some peerSeq => do
    let packet ← Packet.newSynAck self.ownSeq peerSeq lsp
    let self := self.takeOwnSeq.prepareAckable packet
    return ({ self with negotiation := self.negotiation.transitionStart }, some (.packet packet))
  | some .finalAck, some peerSeq => do
    let packet ← Packet.newAck (self.ownSeq - 1) peerSeq LSPPayload.sessionIdControl none
    let self := { self with negotiation := self.negotiation.transitionAccepted }
    return (self.changeState .writable, some (.packet packet))
  | _, _ => some (self, none)

def nextPayload (self : LinkLayer) : LinkLayer × Option (SessionType × Bytes) :=
  let maxPayloadLen := self.peerLsp.maxLen.toNat - Packet.packetOverhead
  match self.csm.dequeueTx with
  | (csm, some v) => ({ self with csm }, some (.control, v))
  | (_, none) =>
    match self.files.dequeueTx maxPayloadLen with
    | (files, some v) => ({ self with files }, some (.fileTransfer, v))
    | (files, none) =>
      match self.ea.dequeueTx with
      | (ea, some v) => ({ self with files, ea }, some (.externalAccessory, v))
      | (_, none) => ({ self with files }, none)

/-- No DETECT was sent so far, or the last one is more than 200 ms old. -/
def shouldSendDetect (self : LinkLayer) : Bool :=
  match self.detectLastTransmit with
  | none => true
  | some lastDetect => self.clock - lastDetect > detectRetransmit

/-- Stages 0) and 1) of `next_transmit`: the server answers DETECT, the client repeats it. -/
def transmitDetecting (self : LinkLayer) : LinkLayer × Option PacketOrDetect :=
  if self.server then
    if self.pendingAck.needsDetectAcknowledge then
      ({ self with pendingAck := { self.pendingAck with needsDetectAcknowledge := false } },
        some .detect)
    else (self, none)
  else if self.shouldSendDetect then
    ({ self with detectLastTransmit := some self.clock }, some .detect)
  else (self, none)

/-- Stage 2): the pending answer of the negotiation, the first SYN, retransmissions. -/
def transmitNegotiating (self : LinkLayer) : Option (LinkLayer × Option PacketOrDetect) := do
  let (self, next) ← self.takePendingNegotiationTransmit
  match next with
  | some next => return (self, some next)
  | none =>
    if !self.server && self.synTransmitted.isNone then
      let syn ← Packet.newSyn self.ownSeq self.negotiation.localLsp
      let self := { self with synTransmitted := some self.clock }.takeOwnSeq
      return (self.prepareAckable syn, some (.packet syn))
    else
      match self.nextRetransmitSeq with
      | some seq => return self.retransmitOne seq
      | none => return (self, none)

/-- Stage 5): a dequeued payload is put into the next packet. -/
def transmitPayload (self : LinkLayer) (sessionType : SessionType) (payload : Bytes) :
    Option (LinkLayer × Option PacketOrDetect) :=
  match self.peerSeq with
  | none => some (self, none)
  | some peerSeq => do
    let session ← self.findSessionOfType sessionType
    let packet ← Packet.newAck self.ownSeq peerSeq session (some payload)
    let self := self.takeOwnSeq
    if packet.size > self.peerLsp.maxLen.toNat then
      return (self.enterErrorState
        (.transmitMaxLenViolation packet.size self.peerLsp.maxLen.toNat), none)
    else
      return ({ self.prepareAckable packet with pendingAck := .reset }, some (.packet packet))

/-- The deadline has passed, enough packets have come in, or an ACK is forced. -/
def emptyAckDue (self : LinkLayer) : Bool :=
  let deadlineElapsed :=
    match self.pendingAck.deadline with
    | none => false
    | some deadline => self.clock ≥ deadline
  let ackBudgetExceeded :=
    if self.localLsp.maxAck = 0 then self.pendingAck.unackedPackets ≥ 1
    else self.pendingAck.unackedPackets ≥ self.localLsp.maxAck.toNat
  deadlineElapsed || ackBudgetExceeded || self.pendingAck.force

/-- Stage 6): an empty ACK, when one is due. -/
def transmitEmptyAck (self : LinkLayer) : Option (LinkLayer × Option PacketOrDetect) :=
  if self.emptyAckDue then
    match self.peerSeq with
    | none => some (self, none)
    | some peerSeq => do
      let packet ← Packet.newAck (self.ownSeq - 1) peerSeq LSPPayload.sessionIdControl none
      return ({ self.prepareAckable packet with pendingAck := .reset }, some (.packet packet))
  else some (self, none)

/-- Stages 3) to 6): retransmissions, then a payload if the window allows, then an ACK. -/
def transmitData (self : LinkLayer) : Option (LinkLayer × Option PacketOrDetect) :=
  let self := { self with pendingAck := { self.pendingAck with outOfOrderIds := [] } }
  match self.nextRetransmitSeq with
  | some seq => some (self.retransmitOne seq)
  | none =>
    if self.isWindowWritable && self.status = .writable then
      match self.nextPayload with
      | (self, some (sessionType, payload)) => self.transmitPayload sessionType payload
      | (self, none) => self.transmitEmptyAck
    else self.transmitEmptyAck

/-- The next frame of an iAP2 link. -/
def nextIap2Transmit (self : LinkLayer) : Option (LinkLayer × Option PacketOrDetect) :=
  if self.status = .detecting then some self.transmitDetecting
  else if self.status = .negotiating then self.transmitNegotiating
  else if self.status.isData then self.transmitData
  else some (self, none)

def nextTransmit (self : LinkLayer) : Option (LinkLayer × Option PacketOrDetect) :=
  if self.isError then some (self, none)
  else
    match self.lingo.dequeueTx with
    | (lingo, some body) =>
      let self := { self with lingo }
      if self.isDowngrade then some (self, some (.legacy body))
      else some (self.enterErrorState .attemptedDowngrade, none)
    | (_, none) =>
      if self.isDowngrade then
        match self.nextPayload with
        | (self, some _) => some (self.enterErrorState .attemptedUpgrade, none)
        | (self, none) => some (self, none)
      else self.nextIap2Transmit

/-- The loop of `reconcile` over its budget. -/
def transmitLoop : Nat → LinkLayer → Option (LinkLayer × Bool)
  | 0, self => some (self, true)
  | budget + 1, self => do
    match ← self.nextTransmit with
    | (self, none) => return (self, false)
    | (self, some next) => transmitLoop budget (self.sendEvent (.write next)).refreshDataStatus

def reconcile (self : LinkLayer) (txBudget : Nat) : Option (LinkLayer × Bool) :=
  transmitLoop txBudget self.drainEvents

/-! ## Negotiation -/

def advancePeerSeqFromAckable (self : LinkLayer) (packet : Packet) : LinkLayer :=
  if packet.isAckable then { self with peerSeq := some packet.header.seq } else self

def verifyNegSeqAck (self : LinkLayer) (packet : Packet) : Bool :=
  match self.peerSeq with
  | none => false
  | some peerSeq => packet.header.seq == peerSeq + 1 && packet.header.ack == self.ownSeq - 1

/-- Offer `counter` in the next SYN+ACK, or give up after ten rounds. -/
def offerCounter (self : LinkLayer) (counter : LSPPayload) : LinkLayer :=
  let self := { self with negotiation := self.negotiation.incrementCounter }
  if self.negotiation.negotiationCounter ≥ 10 then
    self.enterErrorState .linkNegotiationRoundsExceeded
  else { self with negotiation := (self.negotiation.setLocalLsp counter).transitionOffering }

/-- The accessory takes over the host's offer and its own last one. -/
def acceptAccessory (self : LinkLayer) (lsp : LSPPayload) : LinkLayer :=
  let negotiation :=
    (self.negotiation.noteLspAcceptedByPeer self.negotiation.localLsp).noteLspAcceptedByUs lsp
  { self with
    negotiation := negotiation.transitionAccepting
    peerLsp := lsp
    localLsp := negotiation.localLsp }

def onRecvNegAccessory (self : LinkLayer) (packet : Packet) : LinkLayer :=
  if ¬ packet.header.control.isSynAck ∨ (self.peerSeq.isSome ∧ ¬ self.verifyNegSeqAck packet) then
    self
  else
    let self := self.advancePeerSeqFromAckable packet
    match LSPPayload.fromPacket packet with
    | none => self
    | some lsp =>
      match self.counterOffer lsp self.negotiation.negotiationCounter with
      | some counter => self.offerCounter counter
      | none => self.acceptAccessory lsp

/-- An ACK accepts the host's last offer: the link opens. -/
def acceptHost (self : LinkLayer) : LinkLayer :=
  let negotiation := self.negotiation.noteLspAcceptedByPeer self.negotiation.localLsp
  let localLsp := negotiation.peerAcceptedLsp.getD negotiation.localLsp
  { self with
    negotiation := negotiation.transitionAccepted
    localLsp
    peerLsp := negotiation.acceptedPeerLsp.getD localLsp }.changeState .writable

/-- The host answers an acceptable offer with a copy of it. -/
def copyOffer (self : LinkLayer) (lsp : LSPPayload) : LinkLayer :=
  { self with
    negotiation :=
      ((self.negotiation.noteLspAcceptedByUs lsp).setLocalLsp lsp).transitionOffering
    peerLsp := lsp }

/-- The host notices a wrong sequence number and goes on all the same. -/
def onRecvNegHost (self : LinkLayer) (packet : Packet) : LinkLayer :=
  let ctl := packet.header.control
  if ¬ (ctl.isSyn || ctl.isAck || ctl.isSynAck) then self
  else
    let self := self.advancePeerSeqFromAckable packet
    if ctl.isAck then self.acceptHost
    else
      match LSPPayload.fromPacket packet with
      | none => self
      | some lsp =>
        match self.counterOffer lsp self.negotiation.negotiationCounter with
        | some counter => self.offerCounter counter
        | none => self.copyOffer lsp

def onRecvNeg (self : LinkLayer) (packet : Packet) : LinkLayer :=
  if self.server then self.onRecvNegHost packet else self.onRecvNegAccessory packet

/-! ## Reception -/

/-- The payload of a packet that is in order goes to its session. -/
def processAckPayload (self : LinkLayer) (packet : Packet) : Option LinkLayer :=
  match self.peerLsp.sessions.find? fun s => s.id = packet.header.sessionId with
  | none => some self
  | some session =>
    let deadline :=
      if self.pendingAck.unackedPackets = 0 then
        some (self.clock + fromMillis self.localLsp.ackTimeout.toNat)
      else self.pendingAck.deadline
    let self := { self with pendingAck :=
      { self.pendingAck with deadline, unackedPackets := self.pendingAck.unackedPackets + 1 } }
    match session.sessionType with
    | .externalAccessory => some self.drainEvents
    | .control =>
      match packet.payload with
      | none | some [] => some self
      | some payload => some (self.sendEvent (.readCsm payload)).drainEvents
    | .fileTransfer => do
      let files ← self.files.enqueueRx packet.payload
      return { self with files }.drainEvents

/-- The loop over the buffered packets that follow. It removes an entry each time, and
there are at most 256 entries. -/
def drainOutOfOrder : Nat → LinkLayer → UInt8 → Option LinkLayer
  | 0, self, _ => some self
  | fuel + 1, self, nextSeq =>
    match self.outOfOrder nextSeq with
    | none => some self
    | some nextPacket => do
      let self := { self with outOfOrder := self.outOfOrder.remove nextSeq }
      let self ← self.processAckPayload nextPacket
      drainOutOfOrder fuel { self with peerSeq := some nextSeq } (nextSeq + 1)

def isNewerAck (self : LinkLayer) (ackSeq : ModSeq8) : Bool :=
  match self.peerAck with
  | none => true
  | some peerAck => ModSeq8.gt ackSeq peerAck

/-- The acknowledgement number of a packet. -/
def readAck (self : LinkLayer) (packet : Packet) : LinkLayer :=
  let ackSeq := packet.header.ack
  if packet.header.control.isAnyAck && self.isNewerAck ackSeq then
    { self with
      peerAck := some ackSeq
      missingPsns := []
      retransmitMap := self.retransmitMap.retain fun seq => ModSeq8.gt seq ackSeq
      }.refreshDataStatus
  else self

/-- An EAK names the packets the peer misses. -/
def readEak (self : LinkLayer) (packet : Packet) : LinkLayer :=
  match eakPsnsFromPacket packet, self.peerAck with
  | some psns, some _ => { self with missingPsns := psns }.refreshDataStatus
  | _, _ => self

/-- The data part of `read`: deliver, buffer, or acknowledge again. -/
def readData (self : LinkLayer) (packet : Packet) : Option LinkLayer :=
  let self := self.readEak packet
  match self.peerSeq with
  | none => some self
  | some peerSeq =>
    if ¬ packet.header.control.isAck ∨ packet.payload.isNone then some self
    else
      match ModSeq8.partialCmp packet.header.seq (peerSeq + 1) with
      | some .eq => do
        let self ← self.processAckPayload packet
        drainOutOfOrder 256 { self with peerSeq := some packet.header.seq } (packet.header.seq + 1)
      | some .gt =>
        some { self with
          outOfOrder := self.outOfOrder.insert packet.header.seq packet
          pendingAck := self.pendingAck.addOutOfOrderSeq packet.header.seq }
      | some .lt => some { self with pendingAck := { self.pendingAck with force := true } }
      | none => some self

def readPacket (self : LinkLayer) (packet : Packet) : Option LinkLayer :=
  if self.isDowngrade then some (self.enterErrorState .remoteAttemptedUpgrade)
  else if packet.size > self.localLsp.maxLen.toNat then
    some (self.enterErrorState (.recvMaxLenViolation packet.size self.localLsp.maxLen.toNat))
  else
    let self := if self.server && self.status = .detecting then self.changeState .negotiating
      else self
    if !self.server && packet.header.control.isRst then some (self.enterErrorState .reset)
    else
      let self := self.readAck packet
      if self.status = .negotiating then some (self.onRecvNeg packet)
      else if self.status.isData then self.readData packet
      else some self

def readDetect (self : LinkLayer) : LinkLayer :=
  if self.isDowngrade then self.enterErrorState .remoteAttemptedUpgrade
  else if self.server then
    { self with pendingAck := { self.pendingAck with needsDetectAcknowledge := true } }.drainEvents
  else if self.status = .detecting then self.changeState .negotiating
  else self

/-! ## Downgrade -/

def downgrade (self : LinkLayer) : Except LinkError LinkLayer :=
  match self.status with
  | .detecting | .downgrade =>
    if self.detectLastTransmit.isSome then .error .attemptedDowngrade
    else .ok (self.changeState .downgrade)
  | .error _ => .error .eof
  | _ => .error .attemptedDowngrade

/-- The host downgrades by itself when the peer starts with iAP1. -/
def readLegacy (self : LinkLayer) (body : Bytes) : LinkLayer :=
  if self.server && !self.isDowngrade then
    match self.downgrade with
    | .ok self =>
      if self.isDowngrade then self.sendEvent (.readLegacy body)
      else self.enterErrorState .remoteAttemptedDowngrade
    | .error _ => self.enterErrorState .remoteAttemptedDowngrade
  else if self.isDowngrade then self.sendEvent (.readLegacy body)
  else self.enterErrorState .remoteAttemptedDowngrade

def read (self : LinkLayer) (packet : PacketOrDetect) : Option LinkLayer :=
  if self.isError then some self
  else
    match packet with
    | .detect => some self.readDetect
    | .legacy body => some (self.readLegacy body)
    | .packet packet => self.readPacket packet

def close (self : LinkLayer) : LinkLayer :=
  if self.status ≠ .error .eof then self.enterErrorState .eof else self

/-! ## Waiting -/

/-- The earliest deadline among the packets kept for retransmission. -/
def nearestRetransmit (self : LinkLayer) : Option Nat :=
  ((ByteMap.entries self.retransmitMap).map fun e => e.2.timeoutDeadline).min?

/-- The earlier one of this deadline and of the one for an acknowledgement. -/
def nearestDeadline (self : LinkLayer) : Option Nat :=
  (self.nearestRetransmit.toList ++ self.pendingAck.deadline.toList).min?

/-- The delay to wait before the next `reconcile`. -/
def sleep (self : LinkLayer) : Option Nat :=
  if self.isError then none
  else if self.status = .detecting then
    if self.server then none
    else self.detectLastTransmit.map fun lastDetect => detectRetransmit - (self.clock - lastDetect)
  else self.nearestDeadline.map fun deadline => deadline - self.clock

end LinkLayer

end Catplay.Model.Link
