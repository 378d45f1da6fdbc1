import Catplay.Library.Run
import Catplay.Model.Link.LinkLayer

/-!
# Runs of links

One link with its surroundings, and two links joined by channels.
-/

set_option autoImplicit false

/-!
## One link and its surroundings

Every call that a transport or a user can make on a single link, and the trace of the
frames it has read and the events it has emitted, in the order in which they happened.
-/

namespace Catplay.Model.Link

inductive Observation
  | received (frame : PacketOrDetect)
  | emitted (event : LinkEvent)
  deriving DecidableEq, Repr

structure Session where
  link : LinkLayer
  trace : List Observation

namespace Session

inductive Call
  | read (frame : PacketOrDetect)
  | reconcile (txBudget : Nat)
  | advance (nanos : Nat)
  | enqueueCsm (payload : Bytes)
  | enqueueEa (payload : Bytes)
  | enqueueLingo (body : Bytes)
  | reserveFileTx
  | cancelFileTx (id : UInt8)
  | sendFile (id : UInt8) (fileType : UInt16) (setupData source : Bytes)
  | downgrade
  | close
  deriving DecidableEq, Repr

/-- The call on the link; a `downgrade` that is refused changes nothing. -/
def callLink (l : LinkLayer) : Call → Option LinkLayer
  | .read frame => l.read frame
  | .reconcile txBudget => (l.reconcile txBudget).map (·.1)
  | .advance nanos => some { l with clock := l.clock + nanos }
  | .enqueueCsm payload => some { l with csm := l.csm.enqueueTx payload }
  | .enqueueEa payload => some { l with ea := l.ea.enqueueTx payload }
  | .enqueueLingo body => some { l with lingo := l.lingo.enqueueTx body }
  | .reserveFileTx => some { l with files := l.files.reserveFileTx.1 }
  | .cancelFileTx id => some { l with files := l.files.cancelFileTx id }
  | .sendFile id fileType setupData source =>
    (l.files.sendFile id fileType setupData source).map fun files => { l with files }
  | .downgrade =>
    match l.downgrade with
    | .ok l' => some l'
    | .error _ => some l
  | .close => some l.close

def received : Call → List Observation
  | .read frame => [.received frame]
  | _ => []

def step (s : Session) (c : Call) : Option Session :=
  (callLink s.link c).map fun link =>
    { link := { link with events := [] }
      trace := s.trace ++ received c ++ link.events.map .emitted }

def fresh (server : Bool) (clock : Nat) (lspNegotiator : LSPNegotiator) : Session where
  link := .withClockAndLspNegotiator server clock lspNegotiator
  trace := []

/-- The frames written so far. -/
def written (s : Session) : List PacketOrDetect :=
  s.trace.filterMap fun
    | .emitted (.write next) => some next
    | _ => none

end Session

end Catplay.Model.Link

/-!
## Two links over two channels

Two `LinkLayer`s are joined by two FIFO channels. A frame that one end writes goes to
the end of the other's inbox, and a `read` takes the first frame out. A channel may
drop a frame or repeat it in place. Next to each link stand two records that no
transition reads: the CSM payloads it has put into packets and those it has handed to
its user.
-/

namespace Catplay.Model.Link

inductive Side
  | a
  | b
  deriving DecidableEq, Repr

def Side.other : Side → Side
  | a => b
  | b => a

structure Endpoint where
  link : LinkLayer
  /-- The frames under way to this end, the oldest first. -/
  inbox : List PacketOrDetect
  /-- The CSM payloads put into packets, but for empty ones. -/
  sent : List Bytes
  /-- The payloads of the `ReadCsm` events. -/
  received : List Bytes

def LinkEvent.write? : LinkEvent → Option PacketOrDetect
  | write next => some next
  | _ => none

def LinkEvent.readCsm? : LinkEvent → Option Bytes
  | readCsm payload => some payload
  | _ => none

/-- The frames among a list of events. -/
def writes (events : List LinkEvent) : List PacketOrDetect := events.filterMap LinkEvent.write?

/-- The CSM payloads among a list of events. -/
def csmReads (events : List LinkEvent) : List Bytes := events.filterMap LinkEvent.readCsm?

def Duplex := Side → Endpoint

namespace Duplex

/-- The end `s` goes on with `link`, whose events are distributed. -/
def settle (d : Duplex) (s : Side) (e : Endpoint) (link : LinkLayer) : Duplex := fun side =>
  if side = s then
    { e with link := { link with events := [] }, received := e.received ++ csmReads link.events }
  else { d side with inbox := (d side).inbox ++ writes link.events }

/-- Change one end only. -/
def update (d : Duplex) (s : Side) (e : Endpoint) : Duplex := fun side =>
  if side = s then e else d side

inductive Action
  | enqueueCsm (payload : Bytes)
  | reconcile (txBudget : Nat)
  | read
  | advance (nanos : Nat)
  | drop (index : Nat)
  | duplicate (index : Nat)
  deriving DecidableEq, Repr

/-- What left a queue, from its contents before and after. -/
def dequeued (before after : List Bytes) : List Bytes :=
  before.take (before.length - after.length)

/-- The payloads that go into a packet for a peer with these parameters, but for empty ones;
one that is too long ends the link instead. -/
def carried (lsp : LSPPayload) (payloads : List Bytes) : List Bytes :=
  payloads.filter fun payload =>
    payload ≠ [] ∧ payload.length + Packet.packetOverhead ≤ lsp.maxLen.toNat

/-- Repeat the element at an index in place. -/
def repeatAt {α : Type} (l : List α) (index : Nat) : List α :=
  l.take index ++ l[index]?.toList ++ l.drop index

/-- One action at one end. `none` is a panic, or a `read` without a frame. -/
def step (d : Duplex) : Side × Action → Option Duplex
  | (s, .enqueueCsm payload) =>
    let link := { (d s).link with csm := (d s).link.csm.enqueueTx payload }
    some (d.update s { d s with link })
  | (s, .reconcile txBudget) => do
    let (link, _) ← (d s).link.reconcile txBudget
    let taken := dequeued (d s).link.csm.queueTx link.csm.queueTx
    return d.settle s { d s with sent := (d s).sent ++ carried link.peerLsp taken } link
  | (s, .read) =>
    match (d s).inbox with
    | [] => none
    | frame :: inbox => do
      let link ← (d s).link.read frame
      return d.settle s { d s with inbox } link
  | (s, .advance nanos) =>
    some (d.update s { d s with link := { (d s).link with clock := (d s).link.clock + nanos } })
  | (s, .drop index) => some (d.update s { d s with inbox := (d s).inbox.eraseIdx index })
  | (s, .duplicate index) =>
    some (d.update s { d s with inbox := repeatAt (d s).inbox index })

/-- A link that has not written or read anything. -/
def freshEnd (link : LinkLayer) : Endpoint := { link, inbox := [], sent := [], received := [] }

/-- A fresh client at `a` and a fresh server at `b`. -/
def fresh (clientClock serverClock : Nat) (client server : LSPNegotiator) : Duplex
  | .a => freshEnd (.withClockAndLspNegotiator false clientClock client)
  | .b => freshEnd (.withClockAndLspNegotiator true serverClock server)

end Duplex

end Catplay.Model.Link
