import Mathlib.Data.List.Basic

/-!
# Packets and their negotiation

The data of the iAP2 link: sequence numbers, packets, and the state of the negotiation.
-/

set_option autoImplicit false

/-!
## Wrapping sequence numbers

`ModSeq8` of `core/catplay_util/src/mod_seq.rs`: an 8-bit number that wraps, ordered
by the shorter way around the circle. Addition and subtraction are the wrapping ones
of `UInt8`. Two numbers half the circle apart are not comparable.
-/

namespace Catplay.Model.Link

abbrev ModSeq8 := UInt8

namespace ModSeq8

def half : UInt8 := 128

def partialCmp (self other : ModSeq8) : Option Ordering :=
  let d := self - other
  if d = 0 then some .eq
  else if d = half then none
  else if d < half then some .gt
  else some .lt

/-- The operator `>` that `partial_cmp` induces. -/
def gt (self other : ModSeq8) : Bool := partialCmp self other == some .gt

end ModSeq8

end Catplay.Model.Link

/-!
## Packets of the iAP2 link

The data that crosses the link, from `core/catplay_iap2_link/src`: control bits
(`link_control.rs`), headers (`header.rs`), packets (`packet.rs`), the link
synchronisation payload (`payload/lsp_payload.rs`) and the EAK payload
(`payload/eak_payload.rs`). A constructor of a packet that panics on an oversized
payload returns `none` there.
-/

namespace Catplay.Model.Link

abbrev Bytes := List UInt8

/-! ### The link synchronisation payload -/

inductive SessionType
  | control
  | fileTransfer
  | externalAccessory
  deriving DecidableEq, Repr

namespace SessionType

def toByte : SessionType → UInt8
  | control => 0x00
  | fileTransfer => 0x01
  | externalAccessory => 0x02

def tryFrom (value : UInt8) : Option SessionType :=
  if value = 0x00 then some control
  else if value = 0x01 then some fileTransfer
  else if value = 0x02 then some externalAccessory
  else none

end SessionType

structure LSPSession where
  id : UInt8
  sessionType : SessionType
  version : UInt8
  deriving DecidableEq, Repr

structure LSPPayload where
  maxOutgoing : UInt8
  maxLen : UInt16
  retransmissionTimeout : UInt16
  ackTimeout : UInt16
  maxRetransmissions : UInt8
  maxAck : UInt8
  sessions : List LSPSession
  deriving DecidableEq, Repr

def toBeBytes (x : UInt16) : Bytes := [.ofNat (x.toNat / 256), .ofNat (x.toNat % 256)]

def fromBeBytes (hi lo : UInt8) : UInt16 := .ofNat (hi.toNat * 256 + lo.toNat)

namespace LSPPayload

def version : UInt8 := 0x01

def sessionIdControl : UInt8 := 0

/-- The loop over the session records; a rest of less than three bytes is ignored. -/
def sessionsFromBytes : Bytes → Option (List LSPSession)
  | id :: sessionType :: version :: rest => do
    let sessionType ← SessionType.tryFrom sessionType
    let sessions ← sessionsFromBytes rest
    return { id, sessionType, version } :: sessions
  | _ => some []

def fromBytes : Bytes → Option LSPPayload
  | version :: maxOutgoing :: len1 :: len0 :: retransmission1 :: retransmission0 :: ack1 :: ack0
      :: maxRetransmissions :: maxAck :: rest =>
    if version ≠ LSPPayload.version then none
    else do
      let sessions ← sessionsFromBytes rest
      return {
        maxOutgoing
        maxLen := fromBeBytes len1 len0
        retransmissionTimeout := fromBeBytes retransmission1 retransmission0
        ackTimeout := fromBeBytes ack1 ack0
        maxRetransmissions
        maxAck
        sessions }
  | _ => none

def sessionToBytes (session : LSPSession) : Bytes :=
  [session.id, session.sessionType.toByte, session.version]

def toBytes (self : LSPPayload) : Bytes :=
  [version, self.maxOutgoing] ++ toBeBytes self.maxLen ++ toBeBytes self.retransmissionTimeout
    ++ toBeBytes self.ackTimeout ++ [self.maxRetransmissions, self.maxAck]
    ++ self.sessions.flatMap sessionToBytes

def modernSessions : List LSPSession :=
  [⟨1, .control, 2⟩, ⟨2, .fileTransfer, 2⟩, ⟨3, .externalAccessory, 1⟩]

def negotiating : LSPPayload where
  maxOutgoing := 1
  maxLen := 128
  retransmissionTimeout := 1000
  ackTimeout := 10
  maxRetransmissions := 30
  maxAck := 0
  sessions := modernSessions

def bluetooth : LSPPayload where
  maxOutgoing := 5
  maxLen := 2048
  retransmissionTimeout := 1500
  ackTimeout := 73
  maxRetransmissions := 30
  maxAck := 3
  sessions := modernSessions

/-- What a payload decodes to is the payload it encodes. -/
theorem fromBeBytes_toBeBytes (x : UInt16) :
    fromBeBytes (.ofNat (x.toNat / 256)) (.ofNat (x.toNat % 256)) = x := by
  have hx : x.toNat < 65536 := x.toNat_lt
  apply UInt16.toNat_inj.mp
  simp only [fromBeBytes, UInt16.toNat_ofNat', UInt8.toNat_ofNat']
  omega

theorem tryFrom_toByte (t : SessionType) : SessionType.tryFrom t.toByte = some t := by
  cases t <;> rfl

theorem sessionsFromBytes_flatMap (sessions : List LSPSession) :
    sessionsFromBytes (sessions.flatMap sessionToBytes) = some sessions := by
  induction sessions with
  | nil => rfl
  | cons session sessions ih =>
    simp [List.flatMap_cons, sessionToBytes, sessionsFromBytes, tryFrom_toByte, ih]

/-- **Round trip.** A payload decodes from its own bytes. -/
theorem fromBytes_toBytes (lsp : LSPPayload) : fromBytes lsp.toBytes = some lsp := by
  have hsessions := sessionsFromBytes_flatMap lsp.sessions
  simp only [toBytes, toBeBytes, List.cons_append, List.nil_append, fromBytes, ne_eq,
    not_true_eq_false, if_false, hsessions, fromBeBytes_toBeBytes]
  rfl

end LSPPayload

/-! ### Control bits and headers -/

/-- The bits of `LinkControl`. -/
structure LinkControl where
  bits : UInt8
  deriving DecidableEq, Repr

namespace LinkControl

def SYN : LinkControl := ⟨0b10000000⟩

def ACK : LinkControl := ⟨0b01000000⟩

def EAK : LinkControl := ⟨0b00100000⟩

def RST : LinkControl := ⟨0b00010000⟩

def SLP : LinkControl := ⟨0b00001000⟩

def union (a b : LinkControl) : LinkControl := ⟨a.bits ||| b.bits⟩

/-- `from_bits_truncate`: bits without a flag are dropped. -/
def fromBitsTruncate (bits : UInt8) : LinkControl :=
  ⟨bits &&& (SYN.union (ACK.union (EAK.union (RST.union SLP)))).bits⟩

def isExactly (self expected : LinkControl) : Bool := self.bits == expected.bits

def isAck (self : LinkControl) : Bool := self.isExactly ACK

def isSyn (self : LinkControl) : Bool := self.isExactly SYN

def isSynAck (self : LinkControl) : Bool := self.isExactly (SYN.union ACK)

def isRst (self : LinkControl) : Bool := self.isExactly RST

def isEak (self : LinkControl) : Bool := self.isExactly (ACK.union EAK)

def isAnyAck (self : LinkControl) : Bool := self.isAck || self.isSynAck || self.isEak

end LinkControl

structure Header where
  length : UInt16
  control : LinkControl
  seq : ModSeq8
  ack : ModSeq8
  sessionId : UInt8
  deriving DecidableEq, Repr

structure Packet where
  header : Header
  payload : Option Bytes
  deriving DecidableEq, Repr

inductive PacketOrDetect
  | detect
  | packet (packet : Packet)
  | legacy (body : Bytes)
  deriving DecidableEq, Repr

namespace Packet

def packetOverhead : Nat := 10

def packetSizeWithoutPayload : Nat := 9

def size (self : Packet) : Nat :=
  match self.payload with
  | some v => v.length + packetOverhead
  | none => packetSizeWithoutPayload

/-- `none` is the panic on a payload of more than 65525 bytes. -/
def fixLength (self : Packet) : Option Packet :=
  match self.payload with
  | some payload =>
    if payload.length > 65525 then none
    else some { self with header.length := 9 + (.ofNat payload.length + 1) }
  | none => some { self with header.length := 9 }

def newSyn (ownSeq : ModSeq8) (lsp : LSPPayload) : Option Packet :=
  fixLength {
    header := { length := 0, control := .SYN, seq := ownSeq, ack := 0,
                sessionId := LSPPayload.sessionIdControl }
    payload := some lsp.toBytes }

def newSynAck (ownSeq peerSeq : ModSeq8) (lsp : LSPPayload) : Option Packet :=
  fixLength {
    header := { length := 0, control := LinkControl.SYN.union .ACK, seq := ownSeq, ack := peerSeq,
                sessionId := LSPPayload.sessionIdControl }
    payload := some lsp.toBytes }

def newAck (ownSeq peerSeq : ModSeq8) (sessionId : UInt8) (payload : Option Bytes) :
    Option Packet :=
  fixLength {
    header := { length := 0, control := .ACK, seq := ownSeq, ack := peerSeq, sessionId }
    payload }

def newEak (ownSeq peerSeq : ModSeq8) (sessionId : UInt8) (payload : Bytes) : Option Packet :=
  fixLength {
    header := { length := 0, control := LinkControl.ACK.union .EAK, seq := ownSeq, ack := peerSeq,
                sessionId }
    payload := some payload }

def isAckable (self : Packet) : Bool :=
  let ctl := self.header.control
  ctl.isSyn || ((ctl.isAck || ctl.isSynAck) && self.payload.isSome)

end Packet

/-- `LSPPayload::from_packet`. -/
def LSPPayload.fromPacket (packet : Packet) : Option LSPPayload :=
  if packet.header.control.isSyn || packet.header.control.isSynAck then
    packet.payload.bind fromBytes
  else none

/-- `EAKPayload::from_packet`, with the numbers of the payload. -/
def eakPsnsFromPacket (packet : Packet) : Option (List UInt8) :=
  if packet.header.control.isEak then packet.payload else none

end Catplay.Model.Link

/-!
## Link negotiation state

`core/catplay_iap2_link/src/negotiate.rs`: the negotiator that decides on offers, and
the record a link keeps of its own last offer, of the offers accepted so far and of
the answer that is still to be transmitted.
-/

namespace Catplay.Model.Link

/-- The trait `LSPNegotiator`, for negotiators that answer the same to the same question. -/
structure LSPNegotiator where
  start : LSPPayload
  counter : LSPPayload → Nat → Option LSPPayload

/-- `SimpleLSPNegotiator` offers one payload and accepts every offer. -/
def SimpleLSPNegotiator (lsp : LSPPayload) : LSPNegotiator where
  start := lsp
  counter := fun _ _ => none

structure NegotiationData where
  negotiationCounter : Nat
  localLsp : LSPPayload
  acceptedPeerLsp : Option LSPPayload
  peerAcceptedLsp : Option LSPPayload
  deriving DecidableEq, Repr

inductive NegotiationPhase
  | start
  | offering (pending : Bool)
  | accepting (pending : Bool)
  | accepted
  deriving DecidableEq, Repr

inductive NegotiationTx
  | synAck (lsp : LSPPayload)
  | finalAck
  deriving DecidableEq, Repr

/-- The enum `Negotiation`: every variant carries the same data. -/
structure Negotiation where
  phase : NegotiationPhase
  data : NegotiationData
  deriving DecidableEq, Repr

namespace Negotiation

def new (startLsp : LSPPayload) : Negotiation where
  phase := .start
  data :=
    { negotiationCounter := 0, localLsp := startLsp, acceptedPeerLsp := none,
      peerAcceptedLsp := none }

def localLsp (self : Negotiation) : LSPPayload := self.data.localLsp

def setLocalLsp (self : Negotiation) (lsp : LSPPayload) : Negotiation :=
  { self with data := { self.data with localLsp := lsp } }

def negotiationCounter (self : Negotiation) : Nat := self.data.negotiationCounter

def incrementCounter (self : Negotiation) : Negotiation :=
  { self with data := { self.data with negotiationCounter := self.data.negotiationCounter + 1 } }

def noteLspAcceptedByUs (self : Negotiation) (lsp : LSPPayload) : Negotiation :=
  { self with data := { self.data with acceptedPeerLsp := some lsp } }

def noteLspAcceptedByPeer (self : Negotiation) (lsp : LSPPayload) : Negotiation :=
  { self with data := { self.data with peerAcceptedLsp := some lsp } }

def acceptedPeerLsp (self : Negotiation) : Option LSPPayload := self.data.acceptedPeerLsp

def peerAcceptedLsp (self : Negotiation) : Option LSPPayload := self.data.peerAcceptedLsp

def transitionOffering (self : Negotiation) : Negotiation := { self with phase := .offering true }

def transitionAccepting (self : Negotiation) : Negotiation :=
  { self with phase := .accepting true }

def transitionStart (self : Negotiation) : Negotiation := { self with phase := .start }

def transitionAccepted (self : Negotiation) : Negotiation := { self with phase := .accepted }

def takePendingTx (self : Negotiation) : Negotiation × Option NegotiationTx :=
  match self.phase with
  | .offering true => ({ self with phase := .offering false }, some (.synAck self.data.localLsp))
  | .accepting true => ({ self with phase := .accepting false }, some .finalAck)
  | _ => (self, none)

end Negotiation

end Catplay.Model.Link
