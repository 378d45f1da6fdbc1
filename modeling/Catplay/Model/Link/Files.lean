import Catplay.Model.Link.Packet
import Mathlib.Data.UInt

/-!
# File transfer sessions

`core/catplay_iap2_link/src/files` and `payload/file_payload.rs`: the payloads of a
file transfer, the receiver (`incoming.rs`), the transmitter (`outgoing.rs`) and the
session that feeds every payload to both (`session.rs`). The arrays of 255 slots are
maps from the file id; the one id without a slot, 255, is the panic `none` where the
code reads the slot first.
-/

set_option autoImplicit false

namespace Catplay.Model.Link

/-! ## Payloads and events -/

inductive FileTransferOp
  | start
  | cancel
  | pause
  | setup
  | success
  | failure
  | firstData
  | firstAndOnlyData
  | data
  | lastData
  deriving DecidableEq, Repr

namespace FileTransferOp

def toByte : FileTransferOp → UInt8
  | start => 0x01
  | cancel => 0x02
  | pause => 0x03
  | setup => 0x04
  | success => 0x05
  | failure => 0x06
  | firstData => 0x80
  | firstAndOnlyData => 0xC0
  | data => 0x00
  | lastData => 0x40

def tryFrom (value : UInt8) : Option FileTransferOp :=
  [start, cancel, pause, setup, success, failure, firstData, firstAndOnlyData, data,
    lastData].find? fun op => value = op.toByte

end FileTransferOp

structure FileTransferPayload where
  fileId : UInt8
  op : FileTransferOp
  payload : Bytes
  deriving DecidableEq, Repr

namespace FileTransferPayload

def headerOverhead : Nat := 2

/-- `FileTransferPayload::from_packet`, on the packet's payload. -/
def fromPayload : Option Bytes → Option FileTransferPayload
  | some (fileId :: op :: payload) => (FileTransferOp.tryFrom op).map fun op =>
    { fileId, op, payload }
  | _ => none

def toBytes (self : FileTransferPayload) : Bytes := self.fileId :: self.op.toByte :: self.payload

end FileTransferPayload

inductive FileTransferEvent
  | setup (size : Nat) (fileType : UInt16) (setupData : Bytes)
  | data (data : Bytes) (isFinalChunk : Bool)
  | start
  | cancel
  | pause
  | success
  | failure
  deriving DecidableEq, Repr

/-- A big-endian number. -/
def fromBeBytesNat (bytes : Bytes) : Nat := bytes.foldl (fun acc b => acc * 256 + b.toNat) 0

def toBeBytes64 (x : Nat) : Bytes :=
  [7, 6, 5, 4, 3, 2, 1, 0].map fun i => UInt8.ofNat (x / 256 ^ i)

def FileTransferEvent.tryFrom (value : FileTransferPayload) : Option FileTransferEvent :=
  match value.op with
  | .start => some .start
  | .cancel => some .cancel
  | .pause => some .pause
  | .setup =>
    if value.payload.length < 10 then none
    else some (.setup (fromBeBytesNat (value.payload.take 8))
      (.ofNat (fromBeBytesNat ((value.payload.drop 8).take 2))) (value.payload.drop 10))
  | .success => some .success
  | .failure => some .failure
  | .firstData | .data => some (.data value.payload false)
  | .firstAndOnlyData | .lastData => some (.data value.payload true)

/-! ## The receiver -/

inductive IncomingState
  | sending
  | pause
  deriving DecidableEq, Repr

structure FileTransferStatus where
  total : Nat
  progress : Nat
  state : IncomingState
  deriving DecidableEq, Repr

structure FileTransferReceiver where
  server : Bool
  incoming : UInt8 → Option FileTransferStatus

namespace FileTransferReceiver

def new (server : Bool) : FileTransferReceiver := { server, incoming := fun _ => none }

def validRange (self : FileTransferReceiver) (fileId : UInt8) : Bool :=
  if self.server then fileId < 127 else 128 ≤ fileId && fileId < 255

def setSlot (self : FileTransferReceiver) (fileId : UInt8) (status : Option FileTransferStatus) :
    FileTransferReceiver :=
  { self with incoming := fun id => if id = fileId then status else self.incoming id }

/-- The new status of a slot, the notification for the remote and the local event. -/
def feedEvent (fileId : UInt8) (oldStatus : Option FileTransferStatus) (ev : FileTransferEvent) :
    Option (Option FileTransferStatus × Option FileTransferPayload × FileTransferEvent) :=
  match ev, oldStatus with
  | .setup size _ _, none =>
    some (some { total := size, progress := 0, state := .sending }, some ⟨fileId, .start, []⟩, ev)
  | .data data isFinalChunk, some status =>
    if isFinalChunk then some (none, some ⟨fileId, .success, []⟩, ev)
    else some (some { status with progress := status.progress + data.length, state := .sending },
      none, ev)
  | .start, some status =>
    if status.state = .pause then some (some { status with state := .sending }, none, ev) else none
  | .pause, some status =>
    if status.state = .sending then some (some { status with state := .pause }, none, ev) else none
  | .cancel, _ => some (none, none, ev)
  | _, _ => none

def feed (self : FileTransferReceiver) (dg : FileTransferPayload) :
    FileTransferReceiver × Option FileTransferPayload × Option FileTransferEvent :=
  match FileTransferEvent.tryFrom dg with
  | none => (self, none, none)
  | some ev =>
    if ¬ self.validRange dg.fileId then (self, none, none)
    else
      match feedEvent dg.fileId (self.incoming dg.fileId) ev with
      | none => (self, none, none)
      | some (status, remote, event) => (self.setSlot dg.fileId status, remote, some event)

end FileTransferReceiver

/-! ## The transmitter -/

inductive OutgoingState
  | pendingSetup
  | sending
  | pause
  | waitingForSuccess
  | success
  | failure
  | cancelled
  deriving DecidableEq, Repr

/-- `source` is the data of the only source there is, `VecData`. -/
structure FileTransferOutgoing where
  fileSize : Nat
  fileType : UInt16
  setupData : Bytes
  fileId : UInt8
  total : Nat
  progress : Nat
  source : Bytes
  state : OutgoingState
  deriving DecidableEq, Repr

namespace FileTransferOutgoing

def getChunk (source : Bytes) (offset maxLen : Nat) : Bytes × Bool :=
  if offset ≥ source.length then ([], true)
  else
    let slice := (source.drop offset).take maxLen
    (slice, offset + slice.length ≥ source.length)

def pollSend (self : FileTransferOutgoing) (chunkSize : Nat) :
    FileTransferOutgoing × Option FileTransferPayload :=
  if self.state ≠ .sending then (self, none)
  else
    let (slice, eof) := getChunk self.source self.progress chunkSize
    let progress := self.progress + slice.length
    let isLast := eof || (0 < self.total && self.total ≤ progress)
    let op : FileTransferOp :=
      match self.progress == 0, isLast with
      | true, true => .firstAndOnlyData
      | true, false => .firstData
      | false, true => .lastData
      | false, false => .data
    ({ self with progress, state := if isLast then .waitingForSuccess else self.state },
      some ⟨self.fileId, op, slice⟩)

def feedEvent (self : FileTransferOutgoing) (ev : FileTransferEvent) : FileTransferOutgoing :=
  { self with state :=
      match ev, self.state with
      | .start, .pause => .sending
      | .pause, .sending => .pause
      | .success, _ => .success
      | .failure, _ => .failure
      | .cancel, _ => .cancelled
      | _, state => state }

def localEvent (oldState newState : OutgoingState) : Option FileTransferEvent :=
  if oldState = newState then none
  else
    match newState with
    | .success => some .success
    | .failure => some .failure
    | .cancelled => some .cancel
    | _ => none

def setup (self : FileTransferOutgoing) : FileTransferOutgoing × Option FileTransferPayload :=
  if self.state ≠ .pendingSetup then (self, none)
  else
    ({ self with state := .pause },
      some ⟨self.fileId, .setup, toBeBytes64 self.fileSize ++ toBeBytes self.fileType
        ++ self.setupData⟩)

def cancel (self : FileTransferOutgoing) : FileTransferOutgoing × Option FileTransferPayload :=
  match self.state with
  | .cancelled | .success | .failure => (self, none)
  | _ => ({ self with state := .cancelled }, some ⟨self.fileId, .cancel, []⟩)

def shouldReclaimId (self : FileTransferOutgoing) : Bool :=
  match self.state with
  | .cancelled | .success | .failure => true
  | _ => false

end FileTransferOutgoing

structure FileTransferTransmitter where
  server : Bool
  takenIds : UInt8 → Bool
  outgoing : UInt8 → Option FileTransferOutgoing

namespace FileTransferTransmitter

def new (server : Bool) : FileTransferTransmitter :=
  { server, takenIds := fun _ => false, outgoing := fun _ => none }

def validRange (self : FileTransferTransmitter) (fileId : UInt8) : Bool :=
  if self.server then 128 ≤ fileId && fileId < 255 else fileId < 127

/-- The ids in ascending order. -/
def allIds : List UInt8 := (List.range 255).map UInt8.ofNat

def setTaken (self : FileTransferTransmitter) (id : UInt8) (taken : Bool) :
    FileTransferTransmitter :=
  { self with takenIds := fun q => if q = id then taken else self.takenIds q }

def setSlot (self : FileTransferTransmitter) (id : UInt8) (slot : Option FileTransferOutgoing) :
    FileTransferTransmitter :=
  { self with outgoing := fun q => if q = id then slot else self.outgoing q }

def reserve (self : FileTransferTransmitter) : FileTransferTransmitter × Option UInt8 :=
  match allIds.find? fun id => self.validRange id && !self.takenIds id with
  | some id => (self.setTaken id true, some id)
  | none => (self, none)

def cancelReserved (self : FileTransferTransmitter) (id : UInt8) : FileTransferTransmitter :=
  self.setTaken id false

def reconcile (self : FileTransferTransmitter) (id : UInt8) : FileTransferTransmitter :=
  match self.outgoing id with
  | some session =>
    if session.shouldReclaimId then (self.setTaken session.fileId false).setSlot id none else self
  | none => self

/-- `none` is the panic on the slot of id 255. -/
def cancel (self : FileTransferTransmitter) (id : UInt8) :
    Option (FileTransferTransmitter × Option FileTransferPayload) :=
  if id = 255 then none
  else
    match self.outgoing id with
    | some session =>
      let (session, payload) := session.cancel
      some ((self.setSlot id (some session)).reconcile id, payload)
    | none => some (self, none)

/-- `none` is the panic on the slot of id 255. -/
def feed (self : FileTransferTransmitter) (ev : FileTransferPayload) :
    Option (FileTransferTransmitter × Option FileTransferPayload × Option FileTransferEvent) :=
  if ev.fileId = 255 then none
  else if ¬ self.validRange ev.fileId then some (self, none, none)
  else
    match self.outgoing ev.fileId with
    | some session =>
      match FileTransferEvent.tryFrom ev with
      | none => some (self, none, none)
      | some event =>
        let fed := session.feedEvent event
        let lev := FileTransferOutgoing.localEvent session.state fed.state
        some ((self.setSlot ev.fileId (some fed)).reconcile ev.fileId, none, lev)
    | none =>
      if ev.op = .setup then
        some (self.setTaken ev.fileId false, some ⟨ev.fileId, .cancel, []⟩, some .cancel)
      else some (self, none, none)

/-- `none` where `setup` returns an error. -/
def setup (self : FileTransferTransmitter) (id : UInt8) (fileType : UInt16) (setupData : Bytes)
    (source : Bytes) : Option (FileTransferTransmitter × FileTransferPayload) :=
  if id = 255 then none
  else
    match self.outgoing id with
    | some _ => none
    | none =>
      let session : FileTransferOutgoing :=
        { fileSize := source.length, fileType, setupData, fileId := id, total := source.length,
          progress := 0, source, state := .pendingSetup }
      match session.setup with
      | (session, some payload) => some ((self.setSlot id (some session)).reconcile id, payload)
      | (_, none) => none

/-- The first slot that is sending gives a chunk. -/
def poll (self : FileTransferTransmitter) (chunkSize : Nat) :
    FileTransferTransmitter × Option FileTransferPayload :=
  match allIds.find? fun id => (self.outgoing id).any fun slot => slot.state = .sending with
  | none => (self, none)
  | some id =>
    match self.outgoing id with
    | none => (self, none)
    | some slot =>
      let (slot, payload) := slot.pollSend chunkSize
      (self.setSlot id (some slot), payload)

end FileTransferTransmitter

/-! ## The session -/

structure FileSession where
  tx : FileTransferTransmitter
  rx : FileTransferReceiver
  queueTx : List FileTransferPayload
  localEvents : List (UInt8 × FileTransferEvent)

namespace FileSession

def new (server : Bool) : FileSession :=
  { tx := .new server, rx := .new server, queueTx := [], localEvents := [] }

def reserveFileTx (self : FileSession) : FileSession × Option UInt8 :=
  let (tx, id) := self.tx.reserve
  ({ self with tx }, id)

def cancelFileTx (self : FileSession) (id : UInt8) : FileSession :=
  { self with tx := self.tx.cancelReserved id }

/-- `none` is the panic on a transfer that is already set up. -/
def sendFile (self : FileSession) (id : UInt8) (fileType : UInt16) (setupData source : Bytes) :
    Option FileSession := do
  let (tx, payload) ← self.tx.setup id fileType setupData source
  return { self with tx, queueTx := self.queueTx ++ [payload] }

/-- Queue the response and the local event that a feed gave. -/
def queueResults (self : FileSession) (fileId : UInt8) (resp : Option FileTransferPayload)
    (event : Option FileTransferEvent) : FileSession :=
  { self with
    queueTx := self.queueTx ++ resp.toList
    localEvents := self.localEvents ++ event.toList.map fun event => (fileId, event) }

/-- A payload is fed to the receiver and then to the transmitter. -/
def enqueueRx (self : FileSession) (payload : Option Bytes) : Option FileSession :=
  match FileTransferPayload.fromPayload payload with
  | none => some self
  | some f => do
    let (rx, resp, event) := self.rx.feed f
    let self := { self with rx }.queueResults f.fileId resp event
    let (tx, resp, event) ← self.tx.feed f
    return { self with tx }.queueResults f.fileId resp event

def dequeueTx (self : FileSession) (maxPayloadLen : Nat) : FileSession × Option Bytes :=
  match self.queueTx with
  | payload :: rest => ({ self with queueTx := rest }, some payload.toBytes)
  | [] =>
    let chunkSize := maxPayloadLen - FileTransferPayload.headerOverhead
    if chunkSize = 0 then (self, none)
    else
      let (tx, payload) := self.tx.poll chunkSize
      ({ self with tx }, payload.map (·.toBytes))

end FileSession

end Catplay.Model.Link
