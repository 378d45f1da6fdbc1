import Catplay.Model.Ring.RingBuffer
import Catplay.Model.Rtp.RtpTxPacer

/-!
# The RTP player

`RtpPlayer` of `carplay/catplay_carplay/src/rtp/play/rtp_player.rs`, which decodes the packets
of an audio stream into the media ring. A decoder (`codec/audio_decoder.rs`) is known by what
its calls do: any samples it leaves in the slice that it is given, and any answer.
-/

set_option autoImplicit false

namespace Catplay.Model.Rtp

open Catplay.Model.Ring

variable {T E : Type}

/-- The fields of a packet that the player reads. -/
structure RtpPacket where
  timestamp : ModSeq 32
  sequenceNumber : ModSeq 16
  payload : List UInt8
  deriving DecidableEq, Repr

/-- A call of the decoder: what it writes to the start of the slice, and what it returns. -/
structure DecoderCall (T E R : Type) where
  output : List T
  result : Except E R

/-- A packet with what the decoder does while it is pushed: its answers to
`conceal_lost_packet`, one after another, and to `decode`. -/
structure Arrival (T E : Type) where
  packet : RtpPacket
  decodeStart : Nat
  concealLostPacket : Nat → DecoderCall T E Nat
  decode : DecoderCall T E (Nat × Nat)

structure RtpPlayer (T : Type) where
  ring : RingBuffer T
  frameSizeInSamples : Nat
  nonZero : frameSizeInSamples ≠ 0
  lastDecodedTs : Option (ModSeq 32)
  lastDecodedSeq : Option (ModSeq 16)
  lostCounter : Nat
  start : Option Nat

namespace RtpPlayer

/-- `ringSize` is what `spsc` makes of the latency, a second and the frame size: it rounds up to
whole pages where the storage is mapped. -/
def new [Inhabited T] (mapped : Bool) (ringSize frameSizeInSamples : Nat)
    (nonZero : frameSizeInSamples ≠ 0) : RtpPlayer T where
  ring := .newUnsplit mapped ringSize
  frameSizeInSamples
  nonZero
  lastDecodedTs := none
  lastDecodedSeq := none
  lostCounter := 0
  start := none

/-- The loop of `write_silence_gap`, for at most `turns` turns; `none` when they are not
enough. -/
def writeSilenceGap [Inhabited T] (frameSizeInSamples : Nat) :
    Nat → Nat → RingBuffer T → (Nat → DecoderCall T E Nat) → Option (RingBuffer T)
  | _, 0, ring, _ => some ring
  | 0, _ + 1, _, _ => none
  | turns + 1, gapFrames, ring, concealLostPacket =>
    let call := concealLostPacket 0
    let ring := ring.writeInto call.output
    let gapSamples := gapFrames * frameSizeInSamples % 2 ^ 64
    match call.result with
    | .error _ => some (ring.writeDefault gapSamples)
    | .ok decodedSamples =>
      if decodedSamples > 0 then
        let used := min (decodedSamples / frameSizeInSamples) gapFrames
        writeSilenceGap frameSizeInSamples turns (gapFrames - used)
          (ring.writeCommit decodedSamples) fun i => concealLostPacket (i + 1)
      else some (ring.writeDefault gapSamples)

/-- The end of `push_decode`: the packet is decoded behind what was written. -/
def decodeInto (self : RtpPlayer T) (arrival : Arrival T E) : RtpPlayer T :=
  let ts := arrival.packet.timestamp
  let ring := self.ring.writeInto arrival.decode.output
  match arrival.decode.result with
  | .error _ => { self with ring }
  | .ok (decodedSamples, consumed) =>
    if decodedSamples = 0 then { self with ring }
    else if consumed ≠ arrival.packet.payload.length then { self with ring }
    else
      { self with
        ring := ring.writeCommit decodedSamples
        start := self.start.or (some arrival.decodeStart)
        lastDecodedTs := some (ts + BitVec.ofNat 32 (decodedSamples / self.frameSizeInSamples)) }

def lostSince (self : RtpPlayer T) (seq : ModSeq 16) : Nat :=
  match self.lastDecodedSeq with
  | some lastDecodedSeq =>
    let seqDelta := seq.distance lastDecodedSeq
    if seqDelta > 1 then (seqDelta - 1).toNat else 0
  | none => 0

/-- A packet that is not late: the gap before it is filled, then it is decoded. -/
def accept [Inhabited T] (turns : Nat) (self : RtpPlayer T) (arrival : Arrival T E)
    (tsDelta : Int) : Option (RtpPlayer T) :=
  let filled :=
    if tsDelta > 0 then
      writeSilenceGap self.frameSizeInSamples turns tsDelta.toNat self.ring
        arrival.concealLostPacket
    else some self.ring
  filled.map fun ring =>
    { self with
      ring
      lostCounter := self.lostCounter + self.lostSince arrival.packet.sequenceNumber
      lastDecodedTs := some arrival.packet.timestamp
      lastDecodedSeq := some arrival.packet.sequenceNumber }.decodeInto arrival

def pushDecode [Inhabited T] (turns : Nat) (self : RtpPlayer T) (arrival : Arrival T E) :
    Option (RtpPlayer T) :=
  let ts := arrival.packet.timestamp
  let self :=
    if self.lastDecodedTs.isNone then
      { self with
        lastDecodedTs := some ts
        lastDecodedSeq := some arrival.packet.sequenceNumber }
    else self
  match self.lastDecodedTs with
  | none => some self
  | some lastDecodedTs =>
    if ts.lt lastDecodedTs then some self
    else self.accept turns arrival (ts.distance lastDecodedTs)

/-- Computes a delta for the log and decodes. -/
def push [Inhabited T] (turns : Nat) (self : RtpPlayer T) (arrival : Arrival T E) :
    Option (RtpPlayer T) :=
  self.pushDecode turns arrival

end RtpPlayer

end Catplay.Model.Rtp
