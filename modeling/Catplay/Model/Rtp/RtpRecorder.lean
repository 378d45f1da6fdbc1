import Catplay.Model.Ring.RingBuffer
import Catplay.Model.Rtp.RtpTxPacer

/-!
# The RTP recorder

`RtpRecorder` of `carplay/catplay_carplay/src/rtp/record/rtp_recorder.rs`, which takes the
samples of the media ring in packets, encodes them and sends what the pacer permits. The encoder
and the cipher are parameters with states of their own. The extended timestamp, a `u64`, is a
natural number.
-/

set_option autoImplicit false

namespace Catplay.Model.Rtp

open Catplay.Model.Ring

variable {T Enc Ciph E R : Type}

structure RtpHeader where
  version : Nat
  padding : Bool
  extension : Bool
  csrcCount : Nat
  marker : Bool
  payloadType : Nat
  sequenceNumber : ModSeq 16
  timestamp : ModSeq 32
  ssrc : Nat
  deriving DecidableEq, Repr

inductive RtpRecorderError (E R : Type)
  | codec (error : E)
  | rtsp (error : R)
  | overflow
  deriving DecidableEq, Repr

/-- An encoded packet, with the header and the samples that its buffer was prepared from. -/
structure EncodedPacket (T : Type) where
  buffer : List UInt8
  packetMeta : RtpPacketMeta
  header : RtpHeader
  frames : List T
  deriving DecidableEq, Repr

/-- `AudioEncoder::encode`, with the bytes that it writes and the samples that it consumes, and
`RtpCipher::encode`, with the datagram that it makes of a payload and a header. -/
structure Coding (T Enc Ciph E R : Type) where
  encode : Enc → List T → Enc × Except E (List UInt8 × Nat)
  encrypt : Ciph → List UInt8 → RtpHeader → Ciph × Except R (List UInt8)

structure RtpRecorder (T Enc Ciph : Type) where
  ring : RingBuffer T
  cipher : Ciph
  streamType : Nat
  ts : Nat
  seq : ModSeq 16
  encoder : Enc
  samplesPerPacket : Nat
  frameSizeInSamples : Nat
  pacer : RtpTxPacer
  emptyBuffers : List (List UInt8)
  pendingTransmit : List (EncodedPacket T)

/-- What the callback does with the packets that it is offered. -/
inductive SendAnswer (R : Type)
  | accepted (sent : Nat)
  | wouldBlock
  | failed (error : R)
  deriving DecidableEq, Repr

/-- One turn of `drain_encoded`: the clock, the callback, and the clock after it. -/
structure Turn (R : Type) where
  now : Instant
  send : List (List UInt8) → SendAnswer R
  later : Instant

namespace RtpRecorder

def udpQueueSize : Nat := 16

def packetsRingMultiplier : Nat := 50

def udpBatchSize : Nat := 16

def udpInterval (sampleRate packetFrames : Nat) : Duration :=
  min (packetFrames * 1000000000 / (sampleRate * 2)) 1000000

/-- `MainHighAudio`. -/
def mainHighAudio : Nat := 102

/-- The pacer refuses packets of less than a frame. -/
def new [Inhabited T] (encoder : Enc) (cipher : Ciph) (streamType sampleRate samplesPerPacket
    frameSizeInSamples : Nat) (mapped : Bool) (elemsPerPage : Nat) :
    Option (RtpRecorder T Enc Ciph) :=
  let ring : RingBuffer T := .spsc mapped elemsPerPage (samplesPerPacket * packetsRingMultiplier)
  if sampleRate = 0 then none
  else
    let pacer := RtpTxPacer.new sampleRate
      (if streamType = mainHighAudio then 150000000 else 0)
      (udpInterval sampleRate (samplesPerPacket / frameSizeInSamples)) 4
    pacer.map fun pacer =>
      { ring
        cipher
        streamType
        ts := 0
        seq := 0
        encoder
        samplesPerPacket
        frameSizeInSamples
        pacer
        emptyBuffers := List.replicate udpQueueSize []
        pendingTransmit := [] }

variable (coding : Coding T Enc Ciph E R)

def encodeInto (encoder : Enc) (frames : List T) :
    Enc × Except (RtpRecorderError E R) (List UInt8) :=
  let packetSamples := frames.length
  let (encoder, result) := coding.encode encoder frames
  match result with
  | .error err => (encoder, .error (.codec err))
  | .ok (written, consumed) =>
    if consumed ≠ packetSamples then (encoder, .error .overflow) else (encoder, .ok written)

def prepareHeader (streamType : Nat) (ts : ModSeq 32) (seq : ModSeq 16) : RtpHeader where
  version := 2
  padding := false
  extension := false
  csrcCount := 0
  marker := false
  payloadType := streamType
  sequenceNumber := seq
  timestamp := ts
  ssrc := 0

/-- The datagram of some samples. -/
def preparePacket (self : RtpRecorder T Enc Ciph) (frames : List T) :
    RtpRecorder T Enc Ciph × Except (RtpRecorderError E R) (List UInt8) :=
  let (encoder, result) := encodeInto coding self.encoder frames
  let self := { self with encoder }
  match result with
  | .error err => (self, .error err)
  | .ok written =>
    let header := prepareHeader self.streamType (BitVec.ofNat 32 self.ts) self.seq
    let (cipher, result) := coding.encrypt self.cipher written header
    let self := { self with cipher }
    match result with
    | .error err => (self, .error (.rtsp err))
    | .ok buffer => (self, .ok buffer)

def rewindRounding (self : RtpRecorder T Enc Ciph) (samples : Nat) : RtpRecorder T Enc Ciph :=
  let packetSamples := self.samplesPerPacket
  let packets := (samples + packetSamples - 1) / packetSamples
  let packetTs := packetSamples / self.frameSizeInSamples
  let samplesToCommit := packets * packetSamples
  { self with
    ts := self.ts + packets * packetTs
    ring := self.ring.readCommit samplesToCommit }

/-- The loop over `chunks_exact`, with the samples to commit; it ends at the first packet that
cannot be prepared. -/
def encodePackets (self : RtpRecorder T Enc Ciph) :
    Nat → List T → Nat →
      RtpRecorder T Enc Ciph × Nat × Except (RtpRecorderError E R) Unit
  | 0, _, samplesToCommit => (self, samplesToCommit, .ok ())
  | packets + 1, readable, samplesToCommit =>
    let packetSamples := self.samplesPerPacket
    let tsJump := packetSamples / self.frameSizeInSamples
    let frames := readable.take packetSamples
    let (prepared, result) := self.preparePacket coding frames
    match result with
    | .error err => (prepared, samplesToCommit, .error err)
    | .ok buffer =>
      let packet : EncodedPacket T :=
        { buffer
          packetMeta := ⟨self.ts, self.ts + tsJump⟩
          header := prepareHeader self.streamType (BitVec.ofNat 32 self.ts) self.seq
          frames }
      { prepared with
        ts := self.ts + tsJump
        seq := self.seq + 1
        emptyBuffers := self.emptyBuffers.tail
        pendingTransmit := self.pendingTransmit ++ [packet]
        }.encodePackets packets (readable.drop packetSamples) (samplesToCommit + packetSamples)

/-- The loop of `encode_all`, for at most `turns` turns. -/
def encodeAll (self : RtpRecorder T Enc Ciph) :
    Nat → Option (RtpRecorder T Enc Ciph × Except (RtpRecorderError E R) Unit)
  | 0 => none
  | turns + 1 =>
    if self.emptyBuffers.isEmpty then some (self, .ok ())
    else
      let (overflow, readable) := self.ring.readableSlice
      if overflow > 0 then (self.rewindRounding overflow).encodeAll turns
      else
        let packets := min (readable.length / self.samplesPerPacket) self.emptyBuffers.length
        let (encoded, samplesToCommit, result) := self.encodePackets coding packets readable 0
        let self := { encoded with ring := encoded.ring.readCommit samplesToCommit }
        match result with
        | .error err => some (self, .error err)
        | .ok () => if packets = 0 then some (self, .ok ()) else self.encodeAll turns

/-- A recorder and the packets that the callback accepted. -/
structure Session (T Enc Ciph : Type) where
  recorder : RtpRecorder T Enc Ciph
  transmitted : List (EncodedPacket T)

/-- The packets of a batch that were sent go back to the pool as empty buffers. -/
def sentPrefix (self : Session T Enc Ciph) (pacer : RtpTxPacer) (sent : Nat) :
    Session T Enc Ciph :=
  let recorder := self.recorder
  { recorder :=
      { recorder with
        pacer
        emptyBuffers := recorder.emptyBuffers ++ (recorder.pendingTransmit.take sent).map
          EncodedPacket.buffer
        pendingTransmit := recorder.pendingTransmit.drop sent }
    transmitted := self.transmitted ++ recorder.pendingTransmit.take sent }

/-- The packets that the callback accepted; it reports an error as it is, but `WouldBlock`. -/
def sentOf : SendAnswer R → Except R Nat
  | .accepted sent => .ok sent
  | .wouldBlock => .ok 0
  | .failed error => .error error

/-- The loop of `drain_encoded`, for at most `turns` turns, with the turns that are left. -/
def drainEncoded (self : Session T Enc Ciph) (script : Nat → Turn R) :
    Nat → Option (Session T Enc Ciph × (Nat → Turn R) × Except R (Option Instant))
  | 0 => none
  | turns + 1 =>
    let pending := self.recorder.pendingTransmit
    if pending.isEmpty then some (self, script, .ok none)
    else
      let turn := script 0
      let script := fun i => script (i + 1)
      (self.recorder.pacer.inspect turn.now (pending.map EncodedPacket.packetMeta)
          udpBatchSize).bind fun decision =>
        if decision.permits = 0 then some (self, script, .ok decision.wakeAt)
        else
          let batch := (pending.take decision.permits).map EncodedPacket.buffer
          match sentOf (turn.send batch) with
          | .error err => some (self, script, .error err)
          | .ok sent =>
            if sent > decision.permits then none
            else
              (self.recorder.pacer.commit turn.now
                  ((pending.take sent).map EncodedPacket.packetMeta)).bind fun pacer =>
                let self := sentPrefix self pacer sent
                if sent < decision.permits then
                  some (self, script, .ok (some (turn.later + pacer.udpInterval)))
                else drainEncoded self script turns

/-- The loop of `flush`, for at most `turns` turns, and `limit` turns of the loops in it. -/
def flushLoop (limit : Nat) (self : Session T Enc Ciph) (script : Nat → Turn R) :
    Nat → Option (Session T Enc Ciph × Except (RtpRecorderError E R) (Option Instant))
  | 0 => none
  | turns + 1 =>
    (self.recorder.encodeAll coding limit).bind fun (recorder, result) =>
      let self := { self with recorder }
      match result with
      | .error err => some (self, .error err)
      | .ok () =>
        if recorder.pendingTransmit.isEmpty then some (self, .ok none)
        else
          (drainEncoded self script limit).bind fun (self, script, result) =>
            match result with
            | .error err => some (self, .error (.rtsp err))
            | .ok (some wakeAt) => some (self, .ok (some wakeAt))
            | .ok none => flushLoop limit self script turns

/-- Encode and transmit until the input is exhausted or pacing requires a wakeup. -/
def flush (limit : Nat) (self : Session T Enc Ciph) (script : Nat → Turn R) :
    Option (Session T Enc Ciph × Except (RtpRecorderError E R) (Option Instant)) :=
  flushLoop coding limit self script limit

end RtpRecorder

/-! ## The session that makes the recorder -/

namespace RtpSessionTx

def maxFramesPerPacketPcm : Nat := 352

/-- `AudioStreamBasicDescription::channels`. -/
def channels (channelsPerFrame : Nat) : Nat := if channelsPerFrame = 2 then 2 else 1

/-- The samples of a packet, for a codec and its description. -/
def samplesPerPacket (linearPcm : Bool) (framesPerPacket channelsPerFrame : Nat) : Nat :=
  if linearPcm then maxFramesPerPacketPcm * channelsPerFrame
  else framesPerPacket * channels channelsPerFrame

end RtpSessionTx

end Catplay.Model.Rtp
