import Mathlib.Data.UInt

/-!
# The write queue of a TCP session

`BytesMutQueue` of `async/catplay_tokio/src/tcp/bm_queue.rs` and the sink over it in
`tcp_sink.rs`. A `BytesMut` is its bytes and the address they lie at; addresses and capacities of
new buffers are up to the allocator, so the calls that allocate are given them. The field `out`
only carries the slices of one call of `as_iovecs`, which returns them here.
-/

set_option autoImplicit false

namespace Catplay.Model.Tcp

structure BytesMut where
  ptr : Nat
  bytes : List UInt8
  capacity : Nat
  deriving DecidableEq, Repr

namespace BytesMut

def len (self : BytesMut) : Nat := self.bytes.length

def isEmpty (self : BytesMut) : Bool := self.bytes.isEmpty

def advance (self : BytesMut) (count : Nat) : BytesMut where
  ptr := self.ptr + count
  bytes := self.bytes.drop count
  capacity := self.capacity - count

def clear (self : BytesMut) : BytesMut := { self with bytes := [] }

def withCapacity (ptr capacity : Nat) : BytesMut := ⟨ptr, [], capacity⟩

/-- `BytesMut::new`: the address of an empty buffer does not matter. -/
def new : BytesMut := withCapacity 1 0

/-- What an encoder appends; the buffer may have been moved. -/
def extendFromSlice (self : BytesMut) (bytes : List UInt8) (ptr capacity : Nat) : BytesMut where
  ptr
  bytes := self.bytes ++ bytes
  capacity

end BytesMut

structure IoSlice where
  ptr : Nat
  len : Nat
  deriving DecidableEq, Repr

/-- `slice::from_raw_parts`. -/
def IoSlice.read (memory : Nat → UInt8) (slice : IoSlice) : List UInt8 :=
  (List.range' slice.ptr slice.len).map memory

structure TailPolicy where
  retainCapacity : Nat
  shrinkThreshold : Nat
  deriving DecidableEq, Repr

def TailPolicy.default : TailPolicy := ⟨8 * 1024, 256 * 1024⟩

structure BytesMutQueue where
  queue : List BytesMut
  tail : BytesMut
  policy : TailPolicy
  deriving DecidableEq, Repr

namespace BytesMutQueue

def new : BytesMutQueue := ⟨[], .new, .default⟩

def len (self : BytesMutQueue) : Nat :=
  self.queue.length + (if self.tail.isEmpty then 0 else 1)

def isEmpty (self : BytesMutQueue) : Bool := self.queue.isEmpty && self.tail.isEmpty

def push (self : BytesMutQueue) (buf : BytesMut) : BytesMutQueue :=
  if buf.isEmpty then self
  else if !self.tail.isEmpty then { self with queue := self.queue ++ [self.tail], tail := buf }
  else { self with queue := self.queue ++ [buf] }

def first (self : BytesMutQueue) : Option (List UInt8) :=
  match self.queue with
  | front :: _ => some front.bytes
  | [] => if !self.tail.isEmpty then some self.tail.bytes else none

/-- The closure `push_span`: the slice that is being put together, and those before it. -/
def pushSpan (state : Option IoSlice × List IoSlice) (ptr len : Nat) :
    Option IoSlice × List IoSlice :=
  if len = 0 then state
  else
    match state with
    | (none, out) => (some ⟨ptr, len⟩, out)
    | (some cur, out) =>
      if cur.ptr + cur.len = ptr then (some ⟨cur.ptr, cur.len + len⟩, out)
      else (some ⟨ptr, len⟩, out ++ [cur])

def asIovecs (self : BytesMutQueue) : List IoSlice :=
  if self.isEmpty then []
  else
    let state := self.queue.foldl (fun state b => pushSpan state b.ptr b.len) (none, [])
    let state := if !self.tail.isEmpty then pushSpan state self.tail.ptr self.tail.len else state
    match state with
    | (some cur, out) => out ++ [cur]
    | (none, out) => out

def queuedBytes (self : BytesMutQueue) : Nat :=
  (self.queue.map BytesMut.len).sum + self.tail.len

/-- The loop over the front buffers: what is left of them, and of the bytes to drain. -/
def drainFront : List BytesMut → Nat → List BytesMut × Nat
  | queue, 0 => (queue, 0)
  | [], left => ([], left)
  | front :: queue, left =>
    if front.len ≤ left then drainFront queue (left - front.len)
    else (front.advance left :: queue, 0)

def shrinkEmptyTailIfNeeded (self : BytesMutQueue) (fresh : Nat) : BytesMutQueue :=
  if self.tail.isEmpty ∧ self.tail.capacity > self.policy.shrinkThreshold then
    { self with tail := .withCapacity fresh self.policy.retainCapacity }
  else self

def drainWritten (self : BytesMutQueue) (bytes fresh : Nat) : BytesMutQueue :=
  let (queue, left) := drainFront self.queue bytes
  let self := { self with queue }
  if left = 0 ∨ self.tail.isEmpty then self.shrinkEmptyTailIfNeeded fresh
  else
    let tail := if left ≥ self.tail.len then self.tail.clear else self.tail.advance left
    { self with tail }.shrinkEmptyTailIfNeeded fresh

end BytesMutQueue

/-! ## The sink -/

/-- What `try_write` or `try_write_vectored` returns. -/
inductive Written
  | ok (n : Nat)
  | wouldBlock
  | error
  deriving DecidableEq, Repr

/-- The queue, and what the socket has taken. -/
structure Stream where
  composites : BytesMutQueue
  sent : List UInt8
  deriving DecidableEq, Repr

/-- What is offered to the socket. -/
def offered (memory : Nat → UInt8) (composites : BytesMutQueue) : List UInt8 :=
  if composites.len = 1 then
    match composites.first with
    | some first => first
    | none => []
  else composites.asIovecs.flatMap (IoSlice.read memory)

/-- `flush_queue` over the answers of the socket, which blocks behind the last of them; a socket
never takes more than it is offered (`none`). The result says whether an error was returned. -/
def flushQueue (memory : Nat → UInt8) (fresh : Nat) (stream : Stream) :
    List Written → Option (Stream × Bool)
  | [] => some (stream, true)
  | answer :: answers =>
    if stream.composites.isEmpty then some (stream, true)
    else
      let bytes := offered memory stream.composites
      match answer with
      | .ok n =>
        if n > bytes.length then none
        else if n > 0 then
          flushQueue memory fresh ⟨stream.composites.drainWritten n fresh, stream.sent ++ bytes.take n⟩
            answers
        else some (stream, true)
      | .wouldBlock => some (stream, true)
      | .error => some (stream, false)

/-- `write`: the codec encodes into `tail_mut`. -/
def write (composites : BytesMutQueue) (encoded : List UInt8) (ptr capacity : Nat) : BytesMutQueue :=
  { composites with tail := composites.tail.extendFromSlice encoded ptr capacity }

/-- `write_composite`: every buffer of the codec is pushed. -/
def writeComposite (composites : BytesMutQueue) (bufs : List BytesMut) : BytesMutQueue :=
  bufs.foldl BytesMutQueue.push composites

end Catplay.Model.Tcp
