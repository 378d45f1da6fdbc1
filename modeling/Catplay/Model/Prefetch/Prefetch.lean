import Catplay.Library.Keystream
import Mathlib.Data.UInt

/-!
# The keystream prefetch

`core/catplay_hap/src/prefetch`: the state behind the lock, and the runs of worker and consumer.
-/

set_option autoImplicit false

/-!
## The state that prefetch worker and consumer share

`core/catplay_hap/src/prefetch/mod.rs` and `threaded/{state,worker,consumer}.rs`. A provider
of type `P` has the keystream `ks provider nonce`, a byte for each position; a call to a
provider either writes exactly that or fails. Each function below runs under one lock of the
shared state. Positions are `u128` and lengths `usize`, kept as naturals.
-/

namespace Catplay.Model.Prefetch

open Catplay.Library.Keystream

variable {P : Type}

def u128Max : Nat := 2 ^ 128 - 1

inductive Schedule
  /-- Keep this many useful bytes queued ahead of the consumer. -/
  | continuous (capacity : Nat)
  /-- Generate offsets only up to `target` for the current nonce. -/
  | finite (target : Nat)
  deriving DecidableEq, Repr

def Schedule.isContinuous : Schedule → Bool
  | continuous _ => true
  | finite _ => false

structure PrefetchStats where
  nonce : UInt64 := 0
  requestedBytes : Nat := 0
  consumedBytes : Nat := 0
  generatedBytes : Nat := 0
  usedBytes : Nat := 0
  synchronousBytes : Nat := 0
  droppedBytes : Nat := 0
  discardedInFlightBytes : Nat := 0
  deriving DecidableEq, Repr

inductive ApplyError
  | provider
  | positionOverflow
  deriving DecidableEq, Repr

structure PrefetchResult where
  cachedBytes : Nat := 0
  synchronousBytes : Nat := 0
  deriving DecidableEq, Repr

structure Job where
  generation : UInt64
  nonce : UInt64
  offset : Nat
  len : Nat
  deriving DecidableEq, Repr

structure Chunk where
  bytes : List UInt8
  position : Nat
  deriving DecidableEq, Repr

def Chunk.chunkEnd (self : Chunk) : Nat := self.position + self.bytes.length

/-- The bytes of a chunk ahead of the consumer. -/
def Chunk.ready (consumed : Nat) (self : Chunk) : Nat :=
  self.chunkEnd - max self.position consumed

structure State (P : Type) where
  provider : P
  nonce : UInt64
  schedule : Schedule
  consumed : Nat
  scheduled : Nat
  generatedPosition : Nat
  available : Nat
  generation : UInt64
  inFlight : Option Job
  chunks : List Chunk
  cycle : PrefetchStats
  failed : Bool
  stop : Bool
  deriving DecidableEq, Repr

namespace State

def new (provider : P) (nonce : UInt64) (schedule : Schedule) (start : Nat) : State P where
  provider
  nonce
  schedule
  consumed := start
  scheduled := start
  generatedPosition := start
  available := 0
  generation := 0
  inFlight := none
  chunks := []
  cycle := {}
  failed := false
  stop := false

def target (self : State P) : Nat :=
  match self.schedule with
  | .continuous capacity => capacity
  | .finite target => target

def ready (self : State P) : Bool :=
  if self.failed then false
  else
    match self.schedule with
    | .continuous capacity => self.available < capacity && self.scheduled < u128Max
    | .finite target => max self.scheduled self.consumed < target

/-- Discard queued and in-flight work, then refill from the consumer cursor. -/
def restartFromConsumed (self : State P) : State P :=
  { self with
    chunks := []
    available := 0
    scheduled := self.consumed
    generatedPosition := self.consumed
    inFlight := none
    generation := self.generation + 1
    failed := false }

def recountReadyBytes (self : State P) : State P :=
  { self with available := (self.chunks.map (Chunk.ready self.consumed)).sum }

def closeCycle (self : State P) (countDropped : Bool) : State P × PrefetchStats :=
  let stats := { self.cycle with nonce := self.nonce, requestedBytes := self.target }
  ({ self with cycle := {} },
    if countDropped then
      { stats with
        droppedBytes := stats.generatedBytes - stats.usedBytes
        discardedInFlightBytes := (self.inFlight.map Job.len).getD 0 }
    else stats)

end State

/-! ### The worker -/

/-- `job` is what `poll` holds between its two locks. -/
structure CoreWorker (P : Type) where
  chunkSize : Nat
  requestAlignment : Nat
  provider : Option P
  activeGeneration : UInt64
  job : Option Job
  deriving DecidableEq, Repr

namespace CoreWorker

def new (chunkSize requestAlignment : Nat) : CoreWorker P where
  chunkSize
  requestAlignment
  provider := none
  activeGeneration := (-1 : UInt64)
  job := none

def divCeil (n d : Nat) : Nat := (n + d - 1) / d

/-- The first lock of `poll`, and the choice of the provider behind it. -/
def takeJob (self : CoreWorker P) (state : State P) : CoreWorker P × State P :=
  if state.stop then (self, state)
  else if !state.ready then (self, state)
  else
    let start :=
      match state.schedule with
      | .continuous _ => state.scheduled
      | .finite _ => max state.scheduled state.consumed
    let remaining :=
      match state.schedule with
      | .continuous capacity =>
        divCeil (capacity - state.available) self.requestAlignment * self.requestAlignment
      | .finite target => target - start
    let len := min (min remaining self.chunkSize) (u128Max - start)
    if len = 0 then (self, { state with failed := true })
    else
      let job : Job :=
        { generation := state.generation, nonce := state.nonce, offset := start, len }
      let state := { state with scheduled := start + len, inFlight := some job }
      if self.activeGeneration ≠ job.generation then
        ({ self with
            provider := some state.provider
            activeGeneration := job.generation
            job := some job }, state)
      else ({ self with job := some job }, state)

/-- The call to the provider, which succeeds or not, and the second lock of `poll`. There is
no step without a job or without a provider to call. -/
def publish (ks : P → UInt64 → Nat → UInt8) (self : CoreWorker P) (state : State P) (ok : Bool) :
    Option (CoreWorker P × State P) :=
  match self.job, self.provider with
  | some job, some provider =>
    let self := { self with job := none }
    if state.stop then some (self, state)
    else if state.generation ≠ job.generation then some (self, state)
    else if !ok then
      some ({ self with provider := none }, { state with inFlight := none, failed := true })
    else
      let bytes := window (ks provider job.nonce) job.offset job.len
      let generatedPosition := job.offset + job.len
      let state :=
        { state with
          inFlight := none
          cycle.generatedBytes := state.cycle.generatedBytes + job.len
          generatedPosition }
      let usefulStart := max job.offset state.consumed
      if usefulStart < generatedPosition then
        some (self,
          { state with
            available := state.available + (generatedPosition - usefulStart)
            chunks := state.chunks ++ [{ bytes, position := job.offset }] })
      else some (self, state)
  | _, _ => none

end CoreWorker

/-! ### The consumer -/

/-- A cached chunk, and the stretch of it that `apply` uses. -/
structure Piece where
  bytes : List UInt8
  start : Nat
  len : Nat
  deriving DecidableEq, Repr

/-- The locals of `apply` behind the lock in which it looks into the cache. -/
structure Lookup (P : Type) where
  nonce : UInt64
  offset : Nat
  data : List UInt8
  cached : List Piece
  provider : P
  cachedLen : Nat
  tracked : Bool
  deriving DecidableEq, Repr

/-- The loop over the queued chunks from the front. A chunk used only in part ends it, as the
cursor has then come to `stop`. -/
def takeCached (stop : Nat) : List Chunk → Nat → List Piece × List Chunk × Nat
  | [], cursor => ([], [], cursor)
  | chunk :: chunks, cursor =>
    let chunkEnd := chunk.chunkEnd
    if chunkEnd ≤ cursor then takeCached stop chunks cursor
    else if chunk.position > cursor ∨ cursor = stop then ([], chunk :: chunks, cursor)
    else
      let len := min (chunkEnd - cursor) (stop - cursor)
      let piece : Piece := { bytes := chunk.bytes, start := cursor - chunk.position, len }
      if cursor + len = chunkEnd then
        let rest := takeCached stop chunks (cursor + len)
        (piece :: rest.1, rest.2)
      else ([piece], chunk :: chunks, cursor + len)

/-- `xor` of the pieces, one behind the other. -/
def xorPieces : List Piece → List UInt8 → List UInt8
  | [], data => data
  | piece :: pieces, data =>
    xorBytes (data.take piece.len) ((piece.bytes.drop piece.start).take piece.len) ++
      xorPieces pieces (data.drop piece.len)

namespace State

/-- The lock in which `apply` takes what the cache has and moves the cursor. -/
def lookUp (self : State P) (nonce : UInt64) (offset : Nat) (data : List UInt8) :
    State P × Lookup P :=
  let stop := offset + data.length
  let tracked := self.nonce == nonce
  if tracked ∧ offset ≥ self.consumed then
    let taken := takeCached stop self.chunks offset
    let cursor := taken.2.2
    let chunks := taken.2.1.dropWhile fun chunk => chunk.chunkEnd ≤ stop
    let self : State P := { self with chunks, consumed := stop }
    let self :=
      if self.schedule.isContinuous ∧ cursor < stop then self.restartFromConsumed
      else self.recountReadyBytes
    (self,
      { nonce
        offset
        data
        cached := taken.1
        provider := self.provider
        cachedLen := cursor - offset
        tracked })
  else
    (self, { nonce, offset, data, cached := [], provider := self.provider, cachedLen := 0, tracked })

/-- The rest of `apply`: the synchronous suffix, which succeeds or not, the cached pieces and
the accounting. -/
def finish (ks : P → UInt64 → Nat → UInt8) (self : State P) (call : Lookup P) (ok : Bool) :
    State P × Except ApplyError (List UInt8 × PrefetchResult) :=
  let fallbackLen := call.data.length - call.cachedLen
  if fallbackLen > 0 ∧ !ok then
    if call.tracked then
      ({ self with consumed := call.offset }.restartFromConsumed, .error .provider)
    else (self, .error .provider)
  else
    let suffix := call.data.drop call.cachedLen
    let data := call.data.take call.cachedLen ++
      xorBytes suffix
        (window (ks call.provider call.nonce) (call.offset + call.cachedLen) suffix.length)
    let data := xorPieces call.cached data
    let self :=
      if call.tracked then
        { self with
          cycle.consumedBytes := self.cycle.consumedBytes + call.data.length
          cycle.usedBytes := self.cycle.usedBytes + call.cachedLen
          cycle.synchronousBytes := self.cycle.synchronousBytes + fallbackLen }
      else self
    (self, .ok (data, { cachedBytes := call.cachedLen, synchronousBytes := fallbackLen }))

/-- What the caller's buffer holds when `apply` returns. `failed` is what a provider that fails
makes of the suffix. -/
def finishBuffer (ks : P → UInt64 → Nat → UInt8) (failed : List UInt8 → List UInt8)
    (call : Lookup P) (ok : Bool) : List UInt8 :=
  let front := call.data.take call.cachedLen
  let suffix := call.data.drop call.cachedLen
  if call.data.length - call.cachedLen > 0 ∧ !ok then front ++ failed suffix
  else
    xorPieces call.cached (front ++ xorBytes suffix
      (window (ks call.provider call.nonce) (call.offset + call.cachedLen) suffix.length))

/-- Ends the cycle, changes nonce and target, and invalidates queued work. -/
def reset (self : State P) (provider : P) (nonce : UInt64) (schedule : Schedule) (start : Nat) :
    State P × PrefetchStats :=
  let (self, previous) := self.closeCycle (!self.schedule.isContinuous)
  ({ self with provider, nonce, schedule, consumed := start }.restartFromConsumed, previous)

/-- Resize without ending accounting for the current cycle. -/
def resize (self : State P) (schedule : Schedule) : State P :=
  { self with schedule }.restartFromConsumed

end State

end Catplay.Model.Prefetch

/-!
## Worker and consumer in any order

`KeystreamPrefetch` of `core/catplay_hap/src/prefetch/threaded/consumer.rs` with its worker
thread. A step is one lock of either party, so a run is an interleaving of the two. The
consumer is one thread: its next call begins when the last one has returned.
-/

namespace Catplay.Model.Prefetch

/-- The builder's values, which `with_request_alignment` asserts to fit. -/
structure Config where
  chunkSize : Nat
  requestAlignment : Nat
  powerOfTwo : requestAlignment.isPowerOfTwo
  multiple : requestAlignment ∣ chunkSize

def Config.new (chunkSize : Nat) : Config where
  chunkSize
  requestAlignment := 1
  powerOfTwo := Nat.isPowerOfTwo_one
  multiple := Nat.one_dvd chunkSize

def Config.withRequestAlignment (self : Config) (alignment : Nat)
    (powerOfTwo : alignment.isPowerOfTwo) (multiple : alignment ∣ self.chunkSize) : Config :=
  { self with requestAlignment := alignment, powerOfTwo, multiple }

/-- What the consumer is in: `apply` has been entered, or has looked into the cache. -/
inductive Call (P : Type)
  | entered (nonce : UInt64) (offset : Nat) (data : List UInt8)
  | lookedUp (call : Lookup P)
  deriving DecidableEq, Repr

structure KeystreamPrefetch (P : Type) where
  state : State P
  worker : Option (CoreWorker P)
  config : Config
  call : Option (Call P)

inductive Action (P : Type)
  | startWorker
  | takeJob
  | publish (ok : Bool)
  | apply (nonce : UInt64) (offset : Nat) (data : List UInt8)
  | applyNext (data : List UInt8)
  | lookUp
  | finish (ok : Bool)
  | reset (provider : P) (nonce : UInt64) (schedule : Schedule) (start : Nat)
  | resize (schedule : Schedule)
  | finishCycle
  | stop
  deriving DecidableEq, Repr

/-- What a call of the consumer returns. -/
inductive Reply
  | applied (result : Except ApplyError (List UInt8 × PrefetchResult))
  | cycle (stats : PrefetchStats)

namespace KeystreamPrefetch

variable {P : Type}

def new (provider : P) (nonce : UInt64) (schedule : Schedule) (start : Nat) (config : Config) :
    KeystreamPrefetch P where
  state := .new provider nonce schedule start
  worker := none
  config
  call := none

/-- The checks of `apply` before its first lock. -/
def enter (self : KeystreamPrefetch P) (nonce : UInt64) (offset : Nat) (data : List UInt8) :
    KeystreamPrefetch P × Option Reply :=
  if offset + data.length > u128Max then (self, some (.applied (.error .positionOverflow)))
  else if data.isEmpty then (self, some (.applied (.ok ([], {}))))
  else ({ self with call := some (.entered nonce offset data) }, none)

def step (ks : P → UInt64 → Nat → UInt8) (self : KeystreamPrefetch P) (action : Action P) :
    Option (KeystreamPrefetch P × Option Reply) :=
  match action, self.worker, self.call with
  | .startWorker, none, none =>
    let worker := .new self.config.chunkSize self.config.requestAlignment
    some ({ self with worker := some worker }, none)
  | .takeJob, some worker, _ =>
    if worker.job.isSome then none
    else
      let (worker, state) := worker.takeJob self.state
      some ({ self with worker := some worker, state }, none)
  | .publish ok, some worker, _ =>
    (worker.publish ks self.state ok).map fun (worker, state) =>
      ({ self with worker := some worker, state }, none)
  | .apply nonce offset data, _, none => some (self.enter nonce offset data)
  | .applyNext data, _, none => some (self.enter self.state.nonce self.state.consumed data)
  | .lookUp, _, some (.entered nonce offset data) =>
    let (state, call) := self.state.lookUp nonce offset data
    some ({ self with state, call := some (.lookedUp call) }, none)
  | .finish ok, _, some (.lookedUp call) =>
    let (state, result) := self.state.finish ks call ok
    some ({ self with state, call := none }, some (.applied result))
  | .reset provider nonce schedule start, _, none =>
    let (state, stats) := self.state.reset provider nonce schedule start
    some ({ self with state }, some (.cycle stats))
  | .resize schedule, _, none => some ({ self with state := self.state.resize schedule }, none)
  | .finishCycle, _, none =>
    let (state, stats) := self.state.closeCycle false
    some ({ self with state }, some (.cycle stats))
  | .stop, _, none => some ({ self with state := { self.state with stop := true } }, none)
  | _, _, _ => none

end KeystreamPrefetch

end Catplay.Model.Prefetch
