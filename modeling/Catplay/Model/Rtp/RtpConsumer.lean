import Catplay.Model.Ring.RingBuffer

/-!
# Playing from the ring

`XRunReport::zero_fill_overflow_and_underflow` of `carplay/catplay_ring/src/ring_buffer.rs` and
`RtpConsumer::read` of `carplay/catplay_carplay/src/rtp/play/rtp_consumer.rs`.
-/

set_option autoImplicit false

namespace Catplay.Model.Ring

variable {T : Type}

/-- `write_bytes(.., 0, ..)` over `data[start..stop]`; slicing out of range panics. -/
def fillSlice (zero : T) (data : List T) (start stop : Nat) : Option (List T) :=
  if start ≤ stop ∧ stop ≤ data.length then
    some (copyFromSlice data start (List.replicate (stop - start) zero))
  else none

def XRunReport.zeroFillOverflowAndUnderflow (self : XRunReport) (zero : T) (out : List T) :
    Option (List T) := do
  let out ← fillSlice zero out 0 self.overflow
  fillSlice zero out (self.overflow + self.copied) (self.overflow + self.copied + self.underflow)

end Catplay.Model.Ring

namespace Catplay.Model.Rtp

open Catplay.Model.Ring

variable {T : Type}

/-- `RtpConsumer::read`, without the statistics that it logs. -/
def RtpConsumer.read (zero : T) (ring : RingBuffer T) (out : List T) :
    Option (RingBuffer T × List T × Bool) :=
  match ring.read out with
  | (ring, out, .ok ()) => some (ring, out, true)
  | (ring, out, .error err) => do
    let out ← err.zeroFillOverflowAndUnderflow zero out
    pure (ring, out, false)

end Catplay.Model.Rtp
