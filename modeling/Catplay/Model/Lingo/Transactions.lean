import Catplay.Library.Maps
import Catplay.Model.Lingo.FrameCodec

/-!
# Transactions of the iAP1 link

`TransactionHelper` of `core/catplay_lingo/src/transaction_helper.rs`, `LinkLayer` of
`link_layer.rs` and the packet decoder of `wire/registry/codec.rs`. The tables of the lingos are
behind `ProtocolRegistry`. A call that fails gives the state that it leaves beside the error, and
`none` is a panic.
-/

set_option autoImplicit false

namespace Catplay.Model.Lingo

open Catplay.Library

structure CommandKey where
  lingo : UInt8
  command : UInt16
  deriving DecidableEq, Repr

inductive Iap1Source
  | accessory
  | device
  deriving DecidableEq, Repr

inductive TransactionIdPolicy
  | permitted
  | prohibited
  | required
  deriving DecidableEq, Repr

structure Iap1MessageMetadata where
  source : Iap1Source
  transactionId : TransactionIdPolicy
  deriving DecidableEq, Repr

structure DecodeContext where
  adjustedPayloadLength : Nat
  hasTransactionId : Bool
  deriving DecidableEq, Repr

inductive RegistryDecodeError (E : Type)
  | unknownLingo (lingo : UInt8)
  | unknownCommand (lingo : UInt8) (command : UInt16)
  | decode (error : E)
  deriving DecidableEq, Repr

inductive RegisteredError (E : Type)
  | decode (error : RegistryDecodeError E)
  | missingTransactionId
  | unexpectedTransactionId
  deriving DecidableEq, Repr

/-- Dispatches messages across all enabled lingos. -/
structure ProtocolRegistry (M E : Type) where
  decode : UInt8 → UInt16 → DecodeContext → List UInt8 → Except (RegistryDecodeError E) M
  lingoId : M → UInt8
  commandId : M → UInt16
  metadata : UInt8 → UInt16 → Except (RegistryDecodeError E) (Option Iap1MessageMetadata)

/-- `StartIDPS::KEY`. -/
def startIDPSKey : CommandKey := ⟨0, 0x38⟩

/-- ID source and explicit tracking request for an outgoing command. -/
inductive TransactionIntent
  | none
  | new (startTransaction : Bool)
  | existing (id : UInt16) (startTransaction : Bool)
  deriving DecidableEq, Repr

structure Outgoing (M : Type) where
  message : M
  transaction : TransactionIntent
  deriving DecidableEq, Repr

structure Packet (M : Type) where
  message : M
  transactionId : Option UInt16
  deriving DecidableEq, Repr

inductive TransactionError (E : Type)
  | malformedFrame
  | codec (error : RegisteredError E)
  | unknownCommand (lingo : UInt8) (command : UInt16)
  | wrongDirection (lingo : UInt8) (command : UInt16)
  | idsDisabled (lingo : UInt8) (command : UInt16)
  | missingId (lingo : UInt8) (command : UInt16)
  | unexpectedId (lingo : UInt8) (command : UInt16)
  | idAlreadyPending (id : UInt16)
  | idsExhausted
  deriving DecidableEq, Repr

/-! ## Frames and packets -/

def Frame.lingo (self : Frame) : Option UInt8 := self.body[0]?

/-- `u16::from_be_bytes`. -/
def fromBeBytes (hi lo : UInt8) : UInt16 := hi.toUInt16 * 256 + lo.toUInt16

def Frame.command (self : Frame) : Option (UInt16 × List UInt8) :=
  match self.lingo with
  | none => none
  | some lingo =>
    if lingo = 4 then
      match self.body[1]?, self.body[2]? with
      | some hi, some lo => some (fromBeBytes hi lo, self.body.drop 3)
      | _, _ => none
    else
      match self.body[1]? with
      | some command => some (command.toUInt16, self.body.drop 2)
      | none => none

variable {M E : Type}

def checkPolicy (policy : TransactionIdPolicy) (transactionId : Option UInt16) :
    Except (RegisteredError E) Unit :=
  match policy, transactionId with
  | .required, none => .error .missingTransactionId
  | .prohibited, some _ => .error .unexpectedTransactionId
  | _, _ => .ok ()

/-- The payload behind the ID, when there is one. -/
def splitId (data : List UInt8) (hasTransactionId : Bool) :
    Except (RegisteredError E) (List UInt8 × Option UInt16) :=
  if hasTransactionId then
    match data with
    | hi :: lo :: payload => .ok (payload, some (fromBeBytes hi lo))
    | _ => .error .missingTransactionId
  else .ok (data, none)

/-- `ProtocolCodec::decode_with_transaction_id`. -/
def decodeWithTransactionId (registry : ProtocolRegistry M E) (lingo : UInt8) (command : UInt16)
    (data : List UInt8) (hasTransactionId : Bool) :
    Except (RegisteredError E) (M × Option UInt16) := do
  let found ← (registry.metadata lingo command).mapError RegisteredError.decode
  let entry ← match found with
    | some entry => pure entry
    | none => .error (.decode (.unknownCommand lingo command))
  checkPolicy entry.transactionId (if hasTransactionId then some 0 else none)
  let (payload, transactionId) ← splitId data hasTransactionId
  let message ← (registry.decode lingo command ⟨payload.length, hasTransactionId⟩ payload).mapError
    RegisteredError.decode
  return (message, transactionId)

/-! ## The helper -/

structure TransactionHelper where
  server : Bool
  enabled : Bool
  nextLocalId : UInt16
  pending : IdMap CommandKey
  deriving DecidableEq, Repr

namespace TransactionHelper

def new (server : Bool) : TransactionHelper where
  server
  enabled := false
  nextLocalId := if server then 1 else 0
  pending := []

def reset (self : TransactionHelper) : TransactionHelper := new self.server

def setIdsEnabled (self : TransactionHelper) (enabled : Bool) : TransactionHelper :=
  { self with
    enabled
    pending := if enabled then self.pending else [] }

def pendingCommand (self : TransactionHelper) (id : UInt16) : Option CommandKey :=
  self.pending.get? id.toNat

def finishTransaction (self : TransactionHelper) (id : UInt16) :
    TransactionHelper × Option CommandKey :=
  ({ self with pending := self.pending.erase id.toNat }, self.pendingCommand id)

def key (registry : ProtocolRegistry M E) (message : M) : CommandKey :=
  ⟨registry.lingoId message, registry.commandId message⟩

def metadata (registry : ProtocolRegistry M E) (key : CommandKey) :
    Except (TransactionError E) Iap1MessageMetadata :=
  match registry.metadata key.lingo key.command with
  | .ok (some entry) => .ok entry
  | _ => .error (.unknownCommand key.lingo key.command)

def checkDirection (self : TransactionHelper) (key : CommandKey) (entry : Iap1MessageMetadata)
    (outgoing : Bool) : Except (TransactionError E) Unit :=
  let localSource := if self.server then Iap1Source.device else Iap1Source.accessory
  if decide (entry.source = localSource) != outgoing then
    .error (.wrongDirection key.lingo key.command)
  else .ok ()

def checkId (key : CommandKey) (policy : TransactionIdPolicy) (id : Option UInt16)
    (enabledForPacket : Bool) : Except (TransactionError E) Unit :=
  match policy, id with
  | .prohibited, some _ => .error (.unexpectedId key.lingo key.command)
  | .required, none => .error (.missingId key.lingo key.command)
  | .permitted, none =>
    if enabledForPacket then .error (.missingId key.lingo key.command) else .ok ()
  | _, some _ => if !enabledForPacket then .error (.idsDisabled key.lingo key.command) else .ok ()
  | _, _ => .ok ()

/-- Resolve `Permitted` from the known session state, before payload decode. -/
def incomingHasId (self : TransactionHelper) (registry : ProtocolRegistry M E) (lingo : UInt8)
    (command : UInt16) : Except (TransactionError E) Bool := do
  let key : CommandKey := ⟨lingo, command⟩
  let entry ← metadata registry key
  self.checkDirection key entry false
  match entry.transactionId with
  | .prohibited => return false
  | .required =>
    if !self.enabled ∧ key ≠ startIDPSKey then .error (.idsDisabled lingo command) else return true
  | .permitted => return self.enabled

def checkIncoming (self : TransactionHelper) (registry : ProtocolRegistry M E)
    (packet : Packet M) : Except (TransactionError E) Unit := do
  let key := key registry packet.message
  let entry ← metadata registry key
  self.checkDirection key entry false
  checkId key entry.transactionId packet.transactionId (self.enabled || key == startIDPSKey)

/-- Validate an already decoded packet and apply only the `StartIDPS` ID-state transition. -/
def observeIncoming (self : TransactionHelper) (registry : ProtocolRegistry M E)
    (packet : Packet M) : TransactionHelper × Except (TransactionError E) Unit :=
  match self.checkIncoming registry packet with
  | .error error => (self, .error error)
  | .ok () =>
    if key registry packet.message = startIDPSKey then ({ self with enabled := true }, .ok ())
    else (self, .ok ())

/-- The part of `decode` that looks at the frame. -/
def decodePacket (self : TransactionHelper) (registry : ProtocolRegistry M E) (frame : Frame) :
    Except (TransactionError E) (Packet M) := do
  let lingo ← match frame.lingo with
    | some lingo => pure lingo
    | none => .error .malformedFrame
  let (command, data) ← match frame.command with
    | some found => pure found
    | none => .error .malformedFrame
  let hasId ← self.incomingHasId registry lingo command
  let (message, transactionId) ←
    (decodeWithTransactionId registry lingo command data hasId).mapError TransactionError.codec
  return ⟨message, transactionId⟩

def decode (self : TransactionHelper) (registry : ProtocolRegistry M E) (frame : Frame) :
    TransactionHelper × Except (TransactionError E) (Packet M) :=
  match self.decodePacket registry frame with
  | .error error => (self, .error error)
  | .ok packet =>
    match self.observeIncoming registry packet with
    | (self, .error error) => (self, .error error)
    | (self, .ok ()) => (self, .ok packet)

/-- The loop of `allocate_id`: the counter moves at every turn. -/
def allocateLoop : Nat → TransactionHelper → TransactionHelper × Option UInt16
  | 0, self => (self, none)
  | turns + 1, self =>
    let id := self.nextLocalId
    let self := { self with nextLocalId := id + 1 }
    if (self.pendingCommand id).isNone then (self, some id) else allocateLoop turns self

def allocateId (self : TransactionHelper) : TransactionHelper × Except (TransactionError E) UInt16 :=
  match allocateLoop 65536 self with
  | (self, some id) => (self, .ok id)
  | (self, none) => (self, .error .idsExhausted)

/-- What `prepare_outgoing` does once the ID is known. -/
def finishOutgoing (self : TransactionHelper) (key : CommandKey) (policy : TransactionIdPolicy)
    (id : Option UInt16) (enabledForPacket startTransaction : Bool) :
    Option (TransactionHelper × Except (TransactionError E) (Option UInt16)) :=
  let enable (self : TransactionHelper) : TransactionHelper :=
    if key = startIDPSKey then { self with enabled := true } else self
  match checkId key policy id enabledForPacket with
  | .error error => some (self, .error error)
  | .ok () =>
    if startTransaction then
      match id with
      | none => none
      | some id =>
        if (self.pendingCommand id).isSome then some (self, .error (.idAlreadyPending id))
        else
          some (enable { self with pending := self.pending.insert id.toNat key }, .ok (some id))
    else some (enable self, .ok id)

def prepareOutgoing (self : TransactionHelper) (registry : ProtocolRegistry M E) (message : M)
    (intent : TransactionIntent) :
    Option (TransactionHelper × Except (TransactionError E) (Option UInt16)) :=
  let key := key registry message
  match metadata registry key with
  | .error error => some (self, .error error)
  | .ok entry =>
    match self.checkDirection key entry true with
    | .error error => some (self, .error error)
    | .ok () =>
      let enabledForPacket := self.enabled || key == startIDPSKey
      match intent with
      | .none => self.finishOutgoing key entry.transactionId none enabledForPacket false
      | .existing id start =>
        self.finishOutgoing key entry.transactionId (some id) enabledForPacket start
      | .new start =>
        match checkId key entry.transactionId (some 0) enabledForPacket with
        | .error error => some (self, .error error)
        | .ok () =>
          match self.allocateId with
          | (self, .error error) => some (self, .error error)
          | (self, .ok id) =>
            self.finishOutgoing key entry.transactionId (some id) enabledForPacket start

end TransactionHelper

/-! ## The link -/

/-- Times are in nanoseconds. -/
structure LinkLayer (M : Type) where
  transactions : TransactionHelper
  scheduled : List (Nat × Outgoing M)
  deriving DecidableEq, Repr

namespace LinkLayer

def withRole (server : Bool) : LinkLayer M := ⟨.new server, []⟩

def schedule (self : LinkLayer M) (due : Nat) (outgoing : Outgoing M) : LinkLayer M :=
  { self with scheduled := self.scheduled ++ [(due, outgoing)] }

def onFrame (self : LinkLayer M) (registry : ProtocolRegistry M E) (frame : Frame) :
    LinkLayer M × Except (TransactionError E) (Packet M) :=
  let (transactions, result) := self.transactions.decode registry frame
  ({ self with transactions }, result)

def send (self : LinkLayer M) (registry : ProtocolRegistry M E) (outgoing : Outgoing M) :
    Option (LinkLayer M × Except (TransactionError E) (Packet M)) :=
  (self.transactions.prepareOutgoing registry outgoing.message outgoing.transaction).map
    fun (transactions, result) =>
      ({ self with transactions }, result.map fun id => ⟨outgoing.message, id⟩)

/-- The loop over `scheduled` with its index: the trial helper and the messages that are ready. -/
def prepareDue (registry : ProtocolRegistry M E) (elapsed : Nat) (trial : TransactionHelper)
    (index : Nat) : List (Nat × Outgoing M) →
      Option (Except (TransactionError E) (TransactionHelper × List (Nat × Option UInt16)))
  | [] => some (.ok (trial, []))
  | (due, outgoing) :: rest =>
    if due ≤ elapsed then
      match trial.prepareOutgoing registry outgoing.message outgoing.transaction with
      | none => none
      | some (_, .error error) => some (.error error)
      | some (trial, .ok id) =>
        (prepareDue registry elapsed trial (index + 1) rest).map fun result =>
          result.map fun (trial, ready) => (trial, (index, id) :: ready)
    else prepareDue registry elapsed trial (index + 1) rest

/-- The loop that takes the ready messages out of `scheduled`, given in the order of removal. -/
def removeReady : List (Nat × Option UInt16) → List (Nat × Outgoing M) → List (Packet M) →
    Option (List (Nat × Outgoing M) × List (Packet M))
  | [], scheduled, packets => some (scheduled, packets)
  | (index, id) :: ready, scheduled, packets =>
    match scheduled[index]? with
    | none => none
    | some (_, outgoing) =>
      removeReady ready (scheduled.eraseIdx index) (packets ++ [⟨outgoing.message, id⟩])

def poll (self : LinkLayer M) (registry : ProtocolRegistry M E) (elapsed : Nat) :
    Option (LinkLayer M × Except (TransactionError E) (List (Packet M))) :=
  if !(self.scheduled.any fun (due, _) => due ≤ elapsed) then some (self, .ok [])
  else
    match prepareDue registry elapsed self.transactions 0 self.scheduled with
    | none => none
    | some (.error error) => some (self, .error error)
    | some (.ok (trial, ready)) =>
      match removeReady ready.reverse self.scheduled [] with
      | none => none
      | some (scheduled, packets) => some (⟨trial, scheduled⟩, .ok packets.reverse)

end LinkLayer

end Catplay.Model.Lingo
