import Catplay.Library.Maps
import Catplay.Model.Rtsp.Frame

/-!
# The events server

`carplay/catplay_carplay/src/events/events_server.rs`, and the loop of
`async/catplay_tokio/src/tcp/tcp_helper_task.rs` that runs it. A command is of any type `C`;
`Command::deserialize_caching` is a parameter. What is handed to the sink is the list of the
responses; an error ends the connection. The shared secret, the logs and the set-up of the socket
are left out.
-/

set_option autoImplicit false

namespace Catplay.Model.Events

open Catplay.Model.Rtsp Catplay.Library

/-- With the name of the command; the errors of the property list are left out. -/
inductive CommandError
  | unknownCommand (name : RtspString)
  | failedDeserialize (name : RtspString)
  | invalidPayload
  deriving DecidableEq, Repr

/-- The error that the session itself raises. -/
inductive SessionError
  | protocolViolationGeneric
  deriving DecidableEq, Repr

structure EventsServer (C : Type) where
  pending : IdMap C
  /-- The commands whose handlers run. -/
  inflight : IdMap C
  completed : IdMap RtspResponse
  nextResponse : Option RtspResponse
  nextId : Nat
  nextSend : Nat
  maxInflight : Nat
  maxObservedInflight : Nat
  deriving DecidableEq, Repr

namespace EventsServer

variable {C : Type}

def unencrypted (maxInflight : Nat) : EventsServer C where
  pending := []
  inflight := []
  completed := []
  nextResponse := none
  nextId := 0
  nextSend := 0
  maxInflight
  maxObservedInflight := 0

def commandErrorStatus : CommandError → HttpStatus
  | .unknownCommand _ => .notImplemented
  | .invalidPayload => .badRequest
  | .failedDeserialize _ => .badRequest

/-- The loop of `pump_inflight` over what is pending. -/
def spawn (maxInflight : Nat) :
    (pending inflight : IdMap C) → (observed : Nat) → IdMap C × IdMap C × Nat
  | [], inflight, observed => ([], inflight, observed)
  | next :: pending, inflight, observed =>
    if inflight.length < maxInflight then
      spawn maxInflight pending (inflight ++ [next]) (max observed (inflight.length + 1))
    else (next :: pending, inflight, observed)

def pumpInflight (self : EventsServer C) : EventsServer C :=
  let (pending, inflight, observed) :=
    spawn self.maxInflight self.pending self.inflight self.maxObservedInflight
  { self with pending, inflight, maxObservedInflight := observed }

def tryPrepareNextResponse (self : EventsServer C) : EventsServer C × Bool :=
  if self.nextResponse.isSome then (self, true)
  else
    match self.completed.get? self.nextSend with
    | some resp =>
      ({ self with
          completed := self.completed.erase self.nextSend
          nextSend := self.nextSend + 1
          nextResponse := some resp }, true)
    | none => (self, false)

/-- What it writes. -/
def drainNextResponse (self : EventsServer C) : EventsServer C × List RtspResponse :=
  match self.nextResponse with
  | some resp => ({ self with nextResponse := none }, [resp])
  | none => (self, [])

/-- The loop of `on_msg` for one message. -/
def accept (deserialize : List UInt8 → Except CommandError C) (self : EventsServer C) :
    RtspFrame → Except SessionError (EventsServer C)
  | .response _ => .error .protocolViolationGeneric
  | .request request =>
    let id := self.nextId
    let self := { self with nextId := self.nextId + 1 }
    if request.url ≠ "/command".toList then
      .ok { self with completed := self.completed.insert id (.new none .notFound) }
    else
      match deserialize request.payload with
      | .ok cmd => .ok { self with pending := self.pending ++ [(id, cmd)] }.pumpInflight
      | .error err =>
        .ok { self with
          completed := self.completed.insert id (.new none (commandErrorStatus err)) }

def onMsg (deserialize : List UInt8 → Except CommandError C) (self : EventsServer C)
    (msgs : List RtspFrame) : Except SessionError (EventsServer C × List RtspResponse) :=
  let (self, first) := self.drainNextResponse
  match msgs.foldlM (accept deserialize) self with
  | .error e => .error e
  | .ok self =>
    let (self, _) := self.tryPrepareNextResponse
    let (self, second) := self.drainNextResponse
    .ok (self, first ++ second)

def reconcile (self : EventsServer C) : EventsServer C × List RtspResponse :=
  self.drainNextResponse

/-- `sleep`, when `inflight.next()` gives the response `resp` to the command `id`; whether it wakes
the loop up. -/
def sleep (self : EventsServer C) (id : Nat) (resp : RtspResponse) : EventsServer C × Bool :=
  if self.inflight.isEmpty && self.pending.isEmpty then (self, false)
  else
    let self := self.pumpInflight
    let self := { self with
      inflight := self.inflight.erase id
      completed := self.completed.insert id resp }
    self.pumpInflight.tryPrepareNextResponse

end EventsServer

/-! ## The loop that runs the session -/

/-- What can end `TcpHelperTask::sleep`, or does not end it: a handler that finishes out of order. -/
inductive Event
  | messages (msgs : List RtspFrame)
  | finishes (id : Nat) (resp : RtspResponse)
  /-- The socket takes bytes. -/
  | writable

/-- The session in its loop, with what it has written, received and got from its handlers. -/
structure Connection (C : Type) where
  server : EventsServer C
  /-- Whether `select!` still polls the session: it stops once `sleep` gives `None`. -/
  polled : Bool
  written : List RtspResponse
  received : List RtspRequest
  finished : IdMap RtspResponse
  deriving DecidableEq, Repr

namespace Connection

variable {C : Type}

def start (maxInflight : Nat) : Connection C where
  server := .unencrypted maxInflight
  polled := true
  written := []
  received := []
  finished := []

/-- `reconcile`, and then `sleep` is called anew. -/
def wake (self : Connection C) : Connection C :=
  let (server, out) := self.server.reconcile
  { self with server, polled := true, written := self.written ++ out }

/-- The requests of a batch. -/
def requests (msgs : List RtspFrame) : List RtspRequest :=
  msgs.filterMap fun
    | .request request => some request
    | .response _ => none

/-- `none` where the connection ends or nothing of the kind can happen. -/
def step (deserialize : List UInt8 → Except CommandError C) (self : Connection C) :
    Event → Option (Connection C)
  | .messages msgs =>
    match self.server.onMsg deserialize msgs with
    | .error _ => none
    | .ok (server, out) =>
      some { self with
        server
        written := self.written ++ out
        received := self.received ++ requests msgs }.wake
  | .finishes id resp =>
    if self.polled ∧ id ∈ self.server.inflight.keys then
      let finished := self.finished.insert id resp
      match self.server.sleep id resp with
      | (server, true) => some { self with server, finished }.wake
      | (server, false) => some { self with server, finished, polled := false }
    else none
  | .writable => some self.wake

end Connection

end Catplay.Model.Events
