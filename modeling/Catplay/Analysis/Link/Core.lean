import Catplay.Model.Link.LinkLayer
import Mathlib.Data.FinEnum

/-!
# The protocol core of a link

What is left of a `LinkLayer` when its queues, timers and callbacks are forgotten: the
phase, the negotiation, the sequence numbers, the packets that wait for an
acknowledgement and the packets that wait for their predecessors. The core moves by
relations that list, one constructor for each outcome, everything a link can transmit
(`Transmits`) and everything the reception of a frame can do (`Reads`). Timers decide
only which of the outcomes takes place. The relations carry the CSM payload that a
transmission takes from its queue and the CSM payloads that a reception delivers.
-/

set_option autoImplicit false

namespace Catplay.Analysis.Link

open Catplay.Library Catplay.Model.Link

/-- The status up to the moves within the data phase and the kind of error. -/
inductive Phase
  | detecting
  | negotiating
  | data
  | downgrade
  | error
  deriving DecidableEq, Repr

def phaseOf : LinkStatus → Phase
  | .detecting => .detecting
  | .negotiating => .negotiating
  | .writable | .unwritable | .recovery => .data
  | .downgrade => .downgrade
  | .error _ => .error

structure Core where
  server : Bool
  phase : Phase
  lspNegotiator : LSPNegotiator
  negotiation : Negotiation
  localLsp : LSPPayload
  peerLsp : LSPPayload
  peerSeq : Option ModSeq8
  ownSeq : ModSeq8
  peerAck : Option ModSeq8
  /-- Received packets that wait for their predecessors. -/
  outOfOrder : ByteMap Packet
  /-- Transmitted packets that wait for an acknowledgement. -/
  unacked : ByteMap Packet
  synSent : Bool
  detectSent : Bool

/-- The core of a link. -/
def coreOf (l : LinkLayer) : Core where
  server := l.server
  phase := phaseOf l.status
  lspNegotiator := l.lspNegotiator
  negotiation := l.negotiation
  localLsp := l.localLsp
  peerLsp := l.peerLsp
  peerSeq := l.peerSeq
  ownSeq := l.ownSeq
  peerAck := l.peerAck
  outOfOrder := l.outOfOrder
  unacked := fun seq => (l.retransmitMap seq).map (·.packet)
  synSent := l.synTransmitted.isSome
  detectSent := l.detectLastTransmit.isSome

namespace Core

/-! ## Transmission -/

def windowWritable (c : Core) : Prop :=
  ∀ peerAck, c.peerAck = some peerAck → c.ownSeq - peerAck ≤ c.peerLsp.maxOutgoing

def sessionOfType (c : Core) (sessionType : SessionType) : Option UInt8 :=
  (c.localLsp.sessions.find? fun s => s.sessionType = sessionType).map (·.id)

/-- A kept packet as it is retransmitted: with the current acknowledgement, unless it is
a SYN. -/
def Restamps (c : Core) (kept sent : Packet) : Prop :=
  (kept.header.control.isSyn ∧ sent = kept) ∨
    (¬ kept.header.control.isSyn ∧ ∃ peerSeq, c.peerSeq = some peerSeq ∧
      sent = { kept with header := { kept.header with ack := peerSeq } })

/-- The packet is numbered, kept and sent. -/
def keep (c : Core) (p : Packet) : Core :=
  { c with ownSeq := c.ownSeq + 1, unacked := c.unacked.insert p.header.seq p }

/-- The CSM payload among the payloads taken. -/
def csmOnly (sessionType : SessionType) (payload : Bytes) : Option Bytes :=
  if sessionType = .control then some payload else none

/-- `Transmits c taken c' frame`: a core can go from `c` to `c'` and emit `frame`, having
taken the CSM payload `taken` from its queue. -/
inductive Transmits (c : Core) : Option Bytes → Core → Option PacketOrDetect → Prop
  | idle : Transmits c none c none
  /-- A payload is taken and lost, as no number of the peer is known yet. -/
  | lose (taken : Option Bytes) (hphase : c.phase = .data) (hpeer : c.peerSeq = none) :
      Transmits c taken c none
  | fail (taken : Option Bytes) (hphase : c.phase ≠ .error)
      (htaken : taken ≠ none → c.phase = .downgrade) :
      Transmits c taken { c with phase := .error } none
  | legacy (body : Bytes) (hphase : c.phase = .downgrade) :
      Transmits c none c (some (.legacy body))
  | detectHost (hserver : c.server = true) (hphase : c.phase = .detecting) :
      Transmits c none c (some .detect)
  | detectAccessory (hserver : c.server = false) (hphase : c.phase = .detecting) :
      Transmits c none { c with detectSent := true } (some .detect)
  /-- An answer that is due is dropped, as no number of the peer is known yet. -/
  | dropAnswer (hphase : c.phase = .negotiating) (hpeer : c.peerSeq = none) :
      Transmits c none { c with negotiation := c.negotiation.takePendingTx.1 } none
  | synAck (peerSeq : ModSeq8) (p : Packet) (hphase : c.phase = .negotiating)
      (hpending : c.negotiation.phase = .offering true) (hpeer : c.peerSeq = some peerSeq)
      (hp : Packet.newSynAck c.ownSeq peerSeq c.negotiation.localLsp = some p) :
      Transmits c none { c.keep p with negotiation := c.negotiation.transitionStart }
        (some (.packet p))
  | finalAck (peerSeq : ModSeq8) (p : Packet) (hphase : c.phase = .negotiating)
      (hpending : c.negotiation.phase = .accepting true) (hpeer : c.peerSeq = some peerSeq)
      (hp : Packet.newAck (c.ownSeq - 1) peerSeq LSPPayload.sessionIdControl none = some p) :
      Transmits c none
        { c with negotiation := c.negotiation.transitionAccepted, phase := .data }
        (some (.packet p))
  | syn (p : Packet) (hserver : c.server = false) (hphase : c.phase = .negotiating)
      (hfirst : c.synSent = false)
      (hp : Packet.newSyn c.ownSeq c.negotiation.localLsp = some p) :
      Transmits c none { c.keep p with synSent := true } (some (.packet p))
  | retransmit (seq : UInt8) (kept p : Packet)
      (hphase : c.phase = .negotiating ∨ c.phase = .data) (hkept : c.unacked seq = some kept)
      (hp : c.Restamps kept p) :
      Transmits c none { c with unacked := c.unacked.insert seq p } (some (.packet p))
  | payload (sessionType : SessionType) (payload : Bytes) (peerSeq : ModSeq8) (session : UInt8)
      (p : Packet) (hphase : c.phase = .data) (hwindow : c.windowWritable)
      (hpeer : c.peerSeq = some peerSeq) (hsession : c.sessionOfType sessionType = some session)
      (hp : Packet.newAck c.ownSeq peerSeq session (some payload) = some p)
      (hsize : p.size ≤ c.peerLsp.maxLen.toNat) :
      Transmits c (csmOnly sessionType payload) (c.keep p) (some (.packet p))
  | tooLong (sessionType : SessionType) (payload : Bytes) (hphase : c.phase = .data)
      (hsize : c.peerLsp.maxLen.toNat < payload.length + Packet.packetOverhead) :
      Transmits c (csmOnly sessionType payload)
        { c with ownSeq := c.ownSeq + 1, phase := .error } none
  | emptyAck (peerSeq : ModSeq8) (p : Packet) (hphase : c.phase = .data)
      (hpeer : c.peerSeq = some peerSeq)
      (hp : Packet.newAck (c.ownSeq - 1) peerSeq LSPPayload.sessionIdControl none = some p) :
      Transmits c none c (some (.packet p))

/-- A sequence of transmissions, with the payloads taken and the frames emitted. -/
inductive Emits : Core → List Bytes → Core → List PacketOrDetect → Prop
  | nil (c : Core) : Emits c [] c []
  | cons {c₁ c₂ c₃ : Core} {taken : Option Bytes} {next : Option PacketOrDetect}
      {takens : List Bytes} {nexts : List PacketOrDetect} (hmove : Transmits c₁ taken c₂ next)
      (hrest : Emits c₂ takens c₃ nexts) :
      Emits c₁ (taken.toList ++ takens) c₃ (next.toList ++ nexts)

theorem Emits.one {c c' : Core} {taken : Option Bytes} {next : Option PacketOrDetect}
    (h : Transmits c taken c' next) : Emits c taken.toList c' next.toList := by
  have hcons := Emits.cons h (.nil c')
  rwa [List.append_nil, List.append_nil] at hcons

theorem Emits.trans {c₁ c₂ c₃ : Core} {ts₁ ts₂ : List Bytes} {fs₁ fs₂ : List PacketOrDetect}
    (h₁ : Emits c₁ ts₁ c₂ fs₁) (h₂ : Emits c₂ ts₂ c₃ fs₂) :
    Emits c₁ (ts₁ ++ ts₂) c₃ (fs₁ ++ fs₂) := by
  induction h₁ with
  | nil c => exact h₂
  | cons hmove hrest ih =>
    rw [List.append_assoc, List.append_assoc]
    exact .cons hmove (ih h₂)

/-! ## Negotiation -/

def advance (c : Core) (p : Packet) : Core :=
  if p.isAckable then { c with peerSeq := some p.header.seq } else c

def counterOffer (c : Core) (offer : LSPPayload) : Option LSPPayload :=
  if offer.sessions.any fun f => f.sessionType = .control then
    c.lspNegotiator.counter offer c.negotiation.negotiationCounter
  else some c.lspNegotiator.start

/-- The counter-offer that is due after `counter` was decided on. -/
def offering (c : Core) (counter : LSPPayload) : Core :=
  { c with negotiation := (c.negotiation.incrementCounter.setLocalLsp counter).transitionOffering }

/-- The accessory has accepted the offer `lsp` and owes the final ACK. -/
def accepting (c : Core) (lsp : LSPPayload) : Core :=
  { c with
    negotiation := ((c.negotiation.noteLspAcceptedByPeer c.negotiation.localLsp).noteLspAcceptedByUs
      lsp).transitionAccepting
    peerLsp := lsp
    localLsp := c.negotiation.localLsp }

/-- The host has received an ACK and opens the link. -/
def opened (c : Core) : Core :=
  { c with
    negotiation :=
      (c.negotiation.noteLspAcceptedByPeer c.negotiation.localLsp).transitionAccepted
    localLsp := c.negotiation.localLsp
    peerLsp := c.negotiation.acceptedPeerLsp.getD c.negotiation.localLsp
    phase := .data }

/-- The host has accepted the offer `lsp` and owes a copy of it. -/
def copying (c : Core) (lsp : LSPPayload) : Core :=
  { c with
    negotiation := ((c.negotiation.noteLspAcceptedByUs lsp).setLocalLsp lsp).transitionOffering
    peerLsp := lsp }

/-- What a packet does to a core that negotiates. -/
inductive Negotiates (c : Core) (p : Packet) : Core → Prop
  | ignored (hctl : c.server = true → ¬ p.header.control.isAck) : Negotiates c p c
  | unparsed (hctl : p.header.control.isSynAck ∨ p.header.control.isSyn)
      (hlsp : LSPPayload.fromPacket p = none) : Negotiates c p (c.advance p)
  | exceeded (lsp counter : LSPPayload)
      (hctl : p.header.control.isSynAck ∨ (c.server = true ∧ p.header.control.isSyn))
      (hlsp : LSPPayload.fromPacket p = some lsp)
      (hcounter : (c.advance p).counterOffer lsp = some counter) :
      Negotiates c p
        { c.advance p with negotiation := c.negotiation.incrementCounter, phase := .error }
  | counter (lsp counter : LSPPayload)
      (hctl : p.header.control.isSynAck ∨ (c.server = true ∧ p.header.control.isSyn))
      (hlsp : LSPPayload.fromPacket p = some lsp)
      (hcounter : (c.advance p).counterOffer lsp = some counter)
      (hrounds : c.negotiation.negotiationCounter + 1 < 10) :
      Negotiates c p ((c.advance p).offering counter)
  | accept (lsp : LSPPayload) (hserver : c.server = false) (hctl : p.header.control.isSynAck)
      (hseq : ∀ peerSeq, c.peerSeq = some peerSeq →
        p.header.seq = peerSeq + 1 ∧ p.header.ack = c.ownSeq - 1)
      (hlsp : LSPPayload.fromPacket p = some lsp)
      (hcounter : (c.advance p).counterOffer lsp = none) :
      Negotiates c p ((c.advance p).accepting lsp)
  | copy (lsp : LSPPayload) (hserver : c.server = true)
      (hctl : p.header.control.isSynAck ∨ p.header.control.isSyn)
      (hlsp : LSPPayload.fromPacket p = some lsp)
      (hcounter : (c.advance p).counterOffer lsp = none) :
      Negotiates c p ((c.advance p).copying lsp)
  | opens (hserver : c.server = true) (hctl : p.header.control.isAck) :
      Negotiates c p (c.advance p).opened

/-! ## Reception -/

/-- A newer acknowledgement moves the window and releases the packets it covers. -/
def receiveAck (c : Core) (p : Packet) : Core :=
  if p.header.control.isAnyAck = true
      ∧ (∀ peerAck, c.peerAck = some peerAck → ModSeq8.gt p.header.ack peerAck = true) then
    { c with
      peerAck := some p.header.ack
      unacked := c.unacked.retain fun seq => ModSeq8.gt seq p.header.ack }
  else c

/-- A host that is still detecting starts to negotiate with the first packet. -/
def wake (c : Core) : Core :=
  if c.server = true ∧ c.phase = .detecting then { c with phase := .negotiating } else c

/-! ### What the parts of a reception leave alone -/

@[simp] theorem receiveAck_server (c : Core) (p : Packet) :
    (c.receiveAck p).server = c.server := by
  unfold receiveAck
  split <;> rfl

@[simp] theorem receiveAck_phase (c : Core) (p : Packet) :
    (c.receiveAck p).phase = c.phase := by
  unfold receiveAck
  split <;> rfl

@[simp] theorem receiveAck_lspNegotiator (c : Core) (p : Packet) :
    (c.receiveAck p).lspNegotiator = c.lspNegotiator := by
  unfold receiveAck
  split <;> rfl

@[simp] theorem receiveAck_negotiation (c : Core) (p : Packet) :
    (c.receiveAck p).negotiation = c.negotiation := by
  unfold receiveAck
  split <;> rfl

@[simp] theorem receiveAck_localLsp (c : Core) (p : Packet) :
    (c.receiveAck p).localLsp = c.localLsp := by
  unfold receiveAck
  split <;> rfl

@[simp] theorem receiveAck_peerLsp (c : Core) (p : Packet) :
    (c.receiveAck p).peerLsp = c.peerLsp := by
  unfold receiveAck
  split <;> rfl

@[simp] theorem receiveAck_synSent (c : Core) (p : Packet) :
    (c.receiveAck p).synSent = c.synSent := by
  unfold receiveAck
  split <;> rfl

@[simp] theorem receiveAck_peerSeq (c : Core) (p : Packet) :
    (c.receiveAck p).peerSeq = c.peerSeq := by
  unfold receiveAck
  split <;> rfl

@[simp] theorem receiveAck_ownSeq (c : Core) (p : Packet) :
    (c.receiveAck p).ownSeq = c.ownSeq := by
  unfold receiveAck
  split <;> rfl

@[simp] theorem receiveAck_outOfOrder (c : Core) (p : Packet) :
    (c.receiveAck p).outOfOrder = c.outOfOrder := by
  unfold receiveAck
  split <;> rfl

@[simp] theorem wake_server (c : Core) : c.wake.server = c.server := by
  unfold wake
  split <;> rfl

@[simp] theorem wake_lspNegotiator (c : Core) : c.wake.lspNegotiator = c.lspNegotiator := by
  unfold wake
  split <;> rfl

@[simp] theorem wake_negotiation (c : Core) : c.wake.negotiation = c.negotiation := by
  unfold wake
  split <;> rfl

@[simp] theorem wake_peerSeq (c : Core) : c.wake.peerSeq = c.peerSeq := by
  unfold wake
  split <;> rfl

/-- A core that negotiates after waking up was detecting or negotiating. -/
theorem phase_of_wake {c : Core} (h : c.wake.phase = .negotiating) :
    c.phase = .detecting ∨ c.phase = .negotiating := by
  unfold wake at h
  split at h
  · rename_i hasleep
    exact Or.inl hasleep.2
  · exact Or.inr h

@[simp] theorem advance_server (c : Core) (p : Packet) : (c.advance p).server = c.server := by
  unfold advance
  split <;> rfl

@[simp] theorem advance_phase (c : Core) (p : Packet) : (c.advance p).phase = c.phase := by
  unfold advance
  split <;> rfl

@[simp] theorem advance_lspNegotiator (c : Core) (p : Packet) :
    (c.advance p).lspNegotiator = c.lspNegotiator := by
  unfold advance
  split <;> rfl

@[simp] theorem advance_negotiation (c : Core) (p : Packet) : (c.advance p).negotiation = c.negotiation := by
  unfold advance
  split <;> rfl

/-- The CSM payload a packet carries to the user of a link with these sessions. -/
def csmOf (lsp : LSPPayload) (p : Packet) : List Bytes :=
  match lsp.sessions.find? fun s => s.id = p.header.sessionId, p.payload with
  | some session, some payload =>
    if session.sessionType = .control ∧ payload ≠ [] then [payload] else []
  | _, _ => []

/-- The buffered packets from `next` on are processed until one is missing. -/
inductive Drains : Core → ModSeq8 → Core → List Packet → Prop
  | stop (c : Core) (next : ModSeq8) (hnext : c.outOfOrder next = none) : Drains c next c []
  | more (c c' : Core) (next : ModSeq8) (q : Packet) (qs : List Packet)
      (hnext : c.outOfOrder next = some q)
      (hrest : Drains { c with outOfOrder := c.outOfOrder.remove next, peerSeq := some next }
        (next + 1) c' qs) :
      Drains c next c' (q :: qs)

/-- What the payload of a packet does to a core in the data phase. -/
inductive Delivers (c : Core) (p : Packet) : Core → List Bytes → Prop
  | nothing : Delivers c p c []
  | buffer (peerSeq : ModSeq8) (hpeer : c.peerSeq = some peerSeq)
      (hctl : p.header.control.isAck) (hpayload : p.payload.isSome)
      (hseq : ModSeq8.partialCmp p.header.seq (peerSeq + 1) = some .gt) :
      Delivers c p { c with outOfOrder := c.outOfOrder.insert p.header.seq p } []
  | inOrder (c' : Core) (peerSeq : ModSeq8) (qs : List Packet) (hpeer : c.peerSeq = some peerSeq)
      (hctl : p.header.control.isAck) (hpayload : p.payload.isSome)
      (hseq : p.header.seq = peerSeq + 1)
      (hdrain : Drains { c with peerSeq := some p.header.seq } (p.header.seq + 1) c' qs) :
      Delivers c p c' ((p :: qs).flatMap (csmOf c.peerLsp))

/-- A drain of the buffer concerns the buffer and the number of the peer only. -/
theorem Drains.frame {c c' : Core} {next : ModSeq8} {qs : List Packet}
    (h : Drains c next c' qs) :
    ∃ peerSeq outOfOrder, c' = { c with peerSeq, outOfOrder } ∧
      (c.peerSeq.isSome = true → peerSeq.isSome = true) := by
  induction h with
  | stop c next hnext => exact ⟨c.peerSeq, c.outOfOrder, rfl, id⟩
  | more c c' next q qs hnext hrest ih =>
    obtain ⟨peerSeq, outOfOrder, heq, hknown⟩ := ih
    exact ⟨peerSeq, outOfOrder, heq, fun _ => hknown rfl⟩

/-- A delivery concerns the buffer and the number of the peer only, which stays known. -/
theorem Delivers.frame {c c' : Core} {p : Packet} {delivered : List Bytes}
    (h : Delivers c p c' delivered) :
    ∃ peerSeq outOfOrder, c' = { c with peerSeq, outOfOrder } ∧
      (c.peerSeq.isSome = true → peerSeq.isSome = true) := by
  cases h with
  | nothing => exact ⟨c.peerSeq, c.outOfOrder, rfl, id⟩
  | buffer => exact ⟨c.peerSeq, _, rfl, id⟩
  | inOrder _ peerSeq qs hpeer hctl hpayload hseq hdrain =>
    obtain ⟨last, outOfOrder, heq, hknown⟩ := hdrain.frame
    exact ⟨last, outOfOrder, heq, fun _ => hknown rfl⟩

/-- `Reads c frame c' delivered`: a frame can take a core from `c` to `c'` and hand the CSM
payloads `delivered` to the user. -/
inductive Reads (c : Core) : PacketOrDetect → Core → List Bytes → Prop
  | ignore (frame : PacketOrDetect) (hphase : c.phase = .error) : Reads c frame c []
  | fail (frame : PacketOrDetect) (hphase : c.phase ≠ .error) :
      Reads c frame { c with phase := .error } []
  | detect (hphase : c.phase ≠ .downgrade)
      (hnot : c.server = true ∨ c.phase ≠ .detecting) : Reads c .detect c []
  | detectAnswered (hserver : c.server = false) (hphase : c.phase = .detecting) :
      Reads c .detect { c with phase := .negotiating } []
  | legacy (body : Bytes) (hphase : c.phase = .downgrade) : Reads c (.legacy body) c []
  | downgraded (body : Bytes) (hserver : c.server = true) (hphase : c.phase = .detecting)
      (hdetect : c.detectSent = false) :
      Reads c (.legacy body) { c with phase := .downgrade } []
  | early (p : Packet) (hserver : c.server = false) (hphase : c.phase = .detecting) :
      Reads c (.packet p) (c.receiveAck p) []
  | negotiate (p : Packet) (c' : Core) (hphase : c.wake.phase = .negotiating)
      (hsize : p.size ≤ c.localLsp.maxLen.toNat)
      (hneg : Negotiates (c.wake.receiveAck p) p c') :
      Reads c (.packet p) c' []
  | data (p : Packet) (c' : Core) (delivered : List Bytes) (hphase : c.phase = .data)
      (hsize : p.size ≤ c.localLsp.maxLen.toNat)
      (hdelivers : Delivers (c.receiveAck p) p c' delivered) :
      Reads c (.packet p) c' delivered

/-- A core in the data phase, or one that has failed, delivers a packet or goes on as it is. -/
theorem Reads.of_data {c c' : Core} {frame : PacketOrDetect} {delivered : List Bytes}
    (hphase : c.phase = .data ∨ c.phase = .error) (h : Reads c frame c' delivered) :
    (delivered = [] ∧ (c' = c ∨ c' = { c with phase := .error })) ∨
      ∃ p, frame = .packet p ∧ c.phase = .data ∧ Delivers (c.receiveAck p) p c' delivered := by
  cases h with
  | ignore | detect | legacy => exact Or.inl ⟨rfl, Or.inl rfl⟩
  | fail => exact Or.inl ⟨rfl, Or.inr rfl⟩
  | detectAnswered _ hbad | downgraded _ _ hbad _ | early _ _ hbad =>
    rcases hphase with hphase | hphase <;> simp [hphase] at hbad
  | negotiate _ _ hbad _ _ =>
    rcases phase_of_wake hbad with hbad | hbad <;>
      rcases hphase with hphase | hphase <;> simp [hphase] at hbad
  | data p _ _ hdata _ hdelivers => exact Or.inr ⟨p, rfl, hdata, hdelivers⟩

end Core

/-- An exact ACK that opens a link in the state `c`. -/
structure OpensLink (c : Core) (p : Packet) : Prop where
  ack : p.header.control.isAck = true
  size : p.size ≤ c.localLsp.maxLen.toNat
  phase : c.phase = .detecting ∨ c.phase = .negotiating

end Catplay.Analysis.Link
