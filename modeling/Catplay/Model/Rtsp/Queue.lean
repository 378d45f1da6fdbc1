import Catplay.Model.Rtsp.Frame

/-!
# The request queue

`carplay/catplay_carplay/src/rtsp_frame/rtsp_queue.rs`. The queue handle, the drain and the futures
share one `Inner`; the locks make each of their operations one step. A future is the number of its
request, and a sender is the number of the future behind its channel. Deadlines are left out.
-/

set_option autoImplicit false

namespace Catplay.Model.Rtsp

structure FifoPending where
  cseq : UInt32
  sender : Option Nat
  deriving DecidableEq, Repr

/-- `pendingResponse` is the map, in no particular order: its keys differ. -/
structure Inner where
  nextCseq : UInt32
  pendingSend : List RtspRequest
  pendingResponse : List (UInt32 × Nat)
  pendingResponseFifo : List FifoPending
  fifo : Bool
  closed : Bool
  deriving DecidableEq, Repr

structure RtspFuture where
  cseq : UInt32
  dropped : Bool
  deriving DecidableEq, Repr

/-- What comes out of the channel of a future: what was sent into it, or that its sender is gone,
which the future passes on as a closed queue. -/
inductive Resolution
  | response (response : RtspResponse)
  | closed
  | canceled
  deriving DecidableEq, Repr

/-- The shared state, the futures handed out so far, and what has come out of their channels. -/
structure RtspQueue where
  inner : Inner
  futures : List RtspFuture
  resolved : List (Nat × Resolution)
  deriving DecidableEq, Repr

inductive RtspOp
  | queue (request : RtspRequest)
  | dropFuture (future : Nat)
  | drain
  | feed (response : RtspResponse)
  | close
  deriving DecidableEq, Repr

namespace RtspQueue

def create (fifo : Bool) : RtspQueue :=
  { inner :=
      { nextCseq := 0
        pendingSend := []
        pendingResponse := []
        pendingResponseFifo := []
        fifo
        closed := false }
    futures := []
    resolved := [] }

/-- The receiver is dropped with the future it is in. -/
def isDropped (q : RtspQueue) (future : Nat) : Bool :=
  (q.futures[future]?.map RtspFuture.dropped).getD false

/-- A send, or the drop of a sender, reaches a receiver that is still there. -/
def send (q : RtspQueue) (future : Nat) (resolution : Resolution) : RtspQueue :=
  if q.isDropped future then q
  else { q with resolved := q.resolved ++ [(future, resolution)] }

def sendAll (q : RtspQueue) (futures : List Nat) (resolution : Resolution) : RtspQueue :=
  futures.foldl (fun q future => q.send future resolution) q

/-- `remove` of the map. -/
def removePending (pending : List (UInt32 × Nat)) (cseq : UInt32) : List (UInt32 × Nat) :=
  pending.filter (·.1 ≠ cseq)

/-- The sender that the map holds for a number. -/
def pendingSender (q : RtspQueue) (cseq : UInt32) : Option Nat :=
  (q.inner.pendingResponse.find? (·.1 = cseq)).map (·.2)

/-- `RtspQueue::queue`. An `insert` drops the sender that was there for the number. -/
def queue (q : RtspQueue) (request : RtspRequest) : RtspQueue :=
  let cseq := q.inner.nextCseq
  let tx := q.futures.length
  let request := { request with cseq := some cseq }
  let q : RtspQueue :=
    { q with
      inner.nextCseq := cseq + 1
      futures := q.futures ++ [{ cseq, dropped := false }] }
  if q.inner.closed then q.send tx .closed
  else if q.inner.fifo then
    { q with
      inner.pendingResponseFifo := q.inner.pendingResponseFifo ++ [{ cseq, sender := some tx }]
      inner.pendingSend := q.inner.pendingSend ++ [request] }
  else
    let replaced := q.pendingSender cseq
    let q : RtspQueue :=
      { q with
        inner.pendingResponse := removePending q.inner.pendingResponse cseq ++ [(cseq, tx)]
        inner.pendingSend := q.inner.pendingSend ++ [request] }
    q.sendAll replaced.toList .canceled

/-- The drain gives the requests to the connection. -/
def drain (q : RtspQueue) : RtspQueue × List RtspRequest :=
  ({ q with inner.pendingSend := [] }, q.inner.pendingSend)

/-- `RtspDrain::feed`. -/
def feed (q : RtspQueue) (response : RtspResponse) : RtspQueue :=
  if q.inner.fifo then
    match q.inner.pendingResponseFifo with
    | [] => q
    | pending :: rest =>
      { q with inner.pendingResponseFifo := rest }.sendAll pending.sender.toList
        (.response response)
  else
    match response.cseq with
    | none => q
    | some cseq =>
      match q.pendingSender cseq with
      | none => q
      | some sender =>
        { q with inner.pendingResponse := removePending q.inner.pendingResponse cseq }.send sender
          (.response response)

/-- `RtspDrain::close`. -/
def close (q : RtspQueue) : RtspQueue :=
  if q.inner.closed then q
  else
    let pending := q.inner.pendingResponse.map (·.2)
    let pendingFifo := q.inner.pendingResponseFifo.filterMap FifoPending.sender
    { q with
      inner.closed := true
      inner.pendingResponse := []
      inner.pendingResponseFifo := [] }.sendAll (pending ++ pendingFifo) .closed

/-- The first entry with the number loses its sender. -/
def takeSender (cseq : UInt32) : List FifoPending → List FifoPending
  | [] => []
  | entry :: rest =>
    if entry.cseq = cseq then { entry with sender := none } :: rest
    else entry :: takeSender cseq rest

/-- The sender that the drop of a future with this number takes out. -/
def takenSender (q : RtspQueue) (cseq : UInt32) : Option Nat :=
  if q.inner.fifo then
    (q.inner.pendingResponseFifo.find? (·.cseq = cseq)).bind FifoPending.sender
  else q.pendingSender cseq

/-- `Drop` of a future: it takes its sender out by its number, and its receiver goes with it. -/
def dropFuture (q : RtspQueue) (future : Nat) : Option RtspQueue :=
  match q.futures[future]? with
  | none => none
  | some handle =>
    if handle.dropped then none
    else
      let taken := q.takenSender handle.cseq
      let q : RtspQueue :=
        { q with futures := q.futures.set future { handle with dropped := true } }
      let q : RtspQueue :=
        if q.inner.fifo then
          { q with
            inner.pendingResponseFifo := takeSender handle.cseq q.inner.pendingResponseFifo }
        else
          { q with
            inner.pendingResponse := removePending q.inner.pendingResponse handle.cseq }
      some (q.sendAll taken.toList .canceled)

/-- One operation; only a future that is still there can be dropped. -/
def step (q : RtspQueue) : RtspOp → Option RtspQueue
  | .queue request => some (q.queue request)
  | .dropFuture future => q.dropFuture future
  | .drain => some q.drain.1
  | .feed response => some (q.feed response)
  | .close => some q.close

end RtspQueue

end Catplay.Model.Rtsp
