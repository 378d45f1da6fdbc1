import Catplay.Library.Checked
import Catplay.Model.Client.IncomingFiles
import Catplay.Model.Link.PacketCoder
import Catplay.Model.Link.Session

/-!
# The iAP2 client

`AsyncClient` and `AsyncClientDrain` of `async/catplay_iap2_client/src/tokio/async_client.rs`. A
channel is its queue and the slot that `sleep` fills and `take` empties. The sender of a oneshot is
dropped when the frame it came with is taken, so a oneshot is the number of its frame. What the
registry, the iAP1 layer and the session do with an event is up to them (`Callback`).
-/

set_option autoImplicit false

namespace Catplay.Model.Client

open Catplay.Library Catplay.Library.Checked Catplay.Model.Link

inductive CsmSessionError
  | receivedCorruptedCsmPayload
  | coder (error : PacketCoderError)
  | link (error : LinkError)
  | session
  deriving DecidableEq, Repr

/-! ## Channels -/

structure Receiver (α : Type) where
  queue : List α := []
  cached : Option α := none

namespace Receiver

variable {α : Type}

/-- What was sent and not taken, in order. -/
def items (self : Receiver α) : List α := self.cached.toList ++ self.queue

/-- `unbounded_send`. -/
def send (self : Receiver α) (sent : List α) : Receiver α := { self with queue := self.queue ++ sent }

/-- `sleep` fills the slot when there is something to fill it with. -/
def sleep (self : Receiver α) : Receiver α :=
  match self.cached, self.queue with
  | none, item :: queue => { queue, cached := some item }
  | _, _ => self

def take (self : Receiver α) : Receiver α × Option α := ({ self with cached := none }, self.cached)

end Receiver

/-- `PacketFrame`: its number and its bytes. -/
structure PacketFrame where
  counter : Nat
  frame : Bytes
  deriving DecidableEq, Repr

/-- A receiver of a oneshot, and whether `sleep` has seen that the sender was dropped. -/
structure PendingTx where
  counter : Nat
  cached : Bool
  deriving DecidableEq, Repr

structure AsyncClient where
  files : ByteMap InflightFileTransfer
  status : LinkStatus
  link : LinkLayer
  coder : PacketCoder
  rxBuf : Bytes
  /-- The receiver is the `AsyncClientDrain`. -/
  send : Receiver PacketFrame
  hadInit : Bool
  txCounter : Nat
  deadline : Option Nat
  linkEventsRx : Receiver LinkEvent
  pendingTx : Option PendingTx

/-! ## Calls on the handle -/

/-- What a user does; a packet is given as its bytes. -/
inductive HandleCall
  | send (packet : Bytes)
  | sendLingo (body : Bytes)
  | sendFileReserve
  | sendFile (id : UInt8) (fileType : UInt16) (setupData source : Bytes)
  deriving DecidableEq, Repr

/-- What one event leads to: whether the registry or the iAP1 layer decodes it, what the session
calls on its handle, and whether it fails. -/
structure Callback where
  decodes : Bool := true
  calls : List HandleCall := []
  fails : Bool := false
  deriving DecidableEq, Repr

namespace AsyncClient

/-- Everything that the link hands to its callback goes into the channel. -/
def settle (self : AsyncClient) (link : LinkLayer) : AsyncClient :=
  { self with
    link := { link with events := [] }
    linkEventsRx := self.linkEventsRx.send link.events }

def new (link : LinkLayer) : AsyncClient where
  files := .empty
  status := .detecting
  link
  coder := ⟨true⟩
  rxBuf := []
  send := {}
  hadInit := false
  txCounter := 0
  deadline := none
  linkEventsRx := {}
  pendingTx := none

/-- A call on the link. -/
def callLink (self : AsyncClient) (call : Session.Call) : Option AsyncClient :=
  (Session.callLink self.link call).map self.settle

def handleCall (self : AsyncClient) : HandleCall → Option AsyncClient
  | .send packet => self.callLink (.enqueueCsm packet)
  | .sendLingo body =>
    -- an iAP1 message requires a downgraded link
    if self.link.isDowngrade then self.callLink (.enqueueLingo body) else some self
  | .sendFileReserve => self.callLink .reserveFileTx
  | .sendFile id fileType setupData source => self.callLink (.sendFile id fileType setupData source)

def handleCalls (self : AsyncClient) (calls : List HandleCall) : Option AsyncClient :=
  calls.foldlM handleCall self

/-! ## Reading -/

/-- The loop of `read_frame_buf`; every packet takes at least one byte. -/
def readFrames : Nat → AsyncClient → Option AsyncClient
  | 0, self => some self
  | fuel + 1, self =>
    match self.coder.decode self.rxBuf with
    | (.ok (some packet), rxBuf) => do
      let self ← { self with rxBuf }.callLink (.read packet)
      readFrames fuel self
    | (_, rxBuf) => some { self with rxBuf }

def readFrameBuf (self : AsyncClient) (buf : Bytes) : Option AsyncClient :=
  let self := { self with rxBuf := self.rxBuf ++ buf }
  readFrames (self.rxBuf.length + 1) self

/-! ## Reconciling -/

/-- A callback of the session. -/
def runSession (self : AsyncClient) (callback : Callback) : Exec CsmSessionError AsyncClient :=
  match self.handleCalls callback.calls with
  | none => .error .panic
  | some self => if callback.fails then fail .session else .ok self

def handleEvent (self : AsyncClient) (callback : Callback) :
    LinkEvent → Exec CsmSessionError AsyncClient
  | .readLegacy _ => if callback.decodes then self.runSession callback else .ok self
  | .readCsm _ =>
    if callback.decodes then self.runSession callback else fail .receivedCorruptedCsmPayload
  | .write packet =>
    match PacketCoder.encode packet with
    | .error error => fail (.coder error)
    | .ok frame =>
      .ok { self with
        send := self.send.send [⟨self.txCounter, frame⟩]
        pendingTx := some ⟨self.txCounter, false⟩
        txCounter := self.txCounter + 1 }
  | .status linkStatus =>
    let self := { self with status := linkStatus }
    if (linkStatus = .writable ∨ linkStatus = .downgrade) ∧ !self.hadInit then
      { self with hadInit := true }.runSession callback
    else
      match linkStatus with
      | .error err => fail (.link err)
      | _ => .ok self
  | .fileTransfer id file =>
    let (files, localEvent) := onFileEvent self.files id file
    let self := { self with files }
    match localEvent with
    | some _ => self.runSession callback
    | none => .ok self

def isTxAllowed (self : AsyncClient) : AsyncClient × Bool :=
  match self.pendingTx with
  | some v => if v.cached then ({ self with pendingTx := none }, true) else (self, false)
  | none => (self, true)

/-- The first part of `reconcile`: one event. -/
def handleNext (self : AsyncClient) (callback : Callback) :
    Exec CsmSessionError (AsyncClient × Bool) :=
  let (linkEventsRx, event) := self.linkEventsRx.take
  let self := { self with linkEventsRx }
  match event with
  | some event => do
    let self ← self.handleEvent callback event
    pure (self, true)
  | none => .ok (self, false)

/-- The second part: the link transmits when it may. -/
def reconcileLink (self : AsyncClient) (producedEvents : Bool) :
    Exec CsmSessionError (AsyncClient × Bool) :=
  let (self, allowsTx) := self.isTxAllowed
  match self.link.reconcile (if allowsTx then 1 else 0) with
  | none => .error .panic
  | some (link, mayHaveMore) =>
    let self := self.settle link
    match self.status with
    | .error err => fail (.link err)
    | _ =>
      let deadline := self.link.sleep.filter fun _ => allowsTx
      .ok ({ self with deadline }, producedEvents || (allowsTx && mayHaveMore))

def reconcile (self : AsyncClient) (callback : Callback) :
    Exec CsmSessionError (AsyncClient × Bool) := do
  let (self, producedEvents) ← self.handleNext callback
  self.reconcileLink producedEvents

/-! ## Sleeping, and the drain -/

/-- `sleep` on the permit: the sender is gone once the drain has taken the frame. -/
def sleepPendingTx (self : AsyncClient) : AsyncClient :=
  match self.pendingTx with
  | some v =>
    if self.send.items.any fun frame => frame.counter = v.counter then self
    else { self with pendingTx := some { v with cached := true } }
  | none => self

def sleepLinkEvents (self : AsyncClient) : AsyncClient :=
  { self with linkEventsRx := self.linkEventsRx.sleep }

/-- `AsyncClientDrain::take`, which drops the sender of the oneshot. -/
def drainTake (self : AsyncClient) : AsyncClient := { self with send := self.send.take.1 }

def drainSleep (self : AsyncClient) : AsyncClient := { self with send := self.send.sleep }

end AsyncClient

/-! ## Runs -/

inductive ClientAction
  | readFrameBuf (buf : Bytes)
  | handle (call : HandleCall)
  | downgrade
  | advance (nanos : Nat)
  | reconcile (callback : Callback)
  | sleepLinkEvents
  | sleepPendingTx
  | drainSleep
  | drainTake
  deriving DecidableEq, Repr

/-- One action of the client, its user or its drain. After an error no call is made any more. -/
def clientStep (s : AsyncClient) : ClientAction → Option AsyncClient
  | .readFrameBuf buf => s.readFrameBuf buf
  | .handle call => s.handleCall call
  | .downgrade => s.callLink .downgrade
  | .advance nanos => s.callLink (.advance nanos)
  | .reconcile callback =>
    match s.reconcile callback with
    | .ok (s, _) => some s
    | .error _ => none
  | .sleepLinkEvents => some s.sleepLinkEvents
  | .sleepPendingTx => some s.sleepPendingTx
  | .drainSleep => some s.drainSleep
  | .drainTake => some s.drainTake

end Catplay.Model.Client
