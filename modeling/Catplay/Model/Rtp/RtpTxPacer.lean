import Mathlib.Data.UInt

/-!
# Counters and pacing

The wrapping counters of RTP, and the pacer of the recorder.
-/

set_option autoImplicit false

/-!
## Wrapping counters

`ModSeq` of `core/catplay_util/src/mod_seq.rs` for each width: a number that wraps, ordered by
the shorter way around the circle. Addition and subtraction are the wrapping ones of `BitVec`.
Two numbers half the circle apart are not comparable.
-/

namespace Catplay.Model.Rtp

abbrev ModSeq (w : Nat) := BitVec w

namespace ModSeq

variable {w : Nat}

def half (w : Nat) : BitVec w := 1#w <<< (w - 1)

def partialCmp (self other : ModSeq w) : Option Ordering :=
  let d := self - other
  if d = 0 then some .eq
  else if d = half w then none
  else if d < half w then some .gt
  else some .lt

/-- The operator `<` that `partial_cmp` induces. -/
def lt (self other : ModSeq w) : Bool := partialCmp self other == some .lt

def distance (self other : ModSeq w) : Int :=
  match partialCmp self other with
  | some .eq => 0
  | some .gt => (self - other).toNat
  | some .lt => -((other - self).toNat : Int)
  | none => 0

end ModSeq

end Catplay.Model.Rtp

/-!
## The pacer of the RTP recorder

`RtpTxPacer` of `carplay/catplay_carplay/src/rtp/record/rtp_tx_pacer.rs`: how many of the
encoded packets may be sent now. Instants and durations are in nanoseconds, extended timestamps
in frames; a failed assertion is `none`.
-/

namespace Catplay.Model.Rtp

abbrev Instant := Nat

abbrev Duration := Nat

def nsPerSec : Nat := 1000000000

/-- A `Duration` has 64 bits of seconds. -/
def durationLimit : Duration := 2 ^ 64 * nsPerSec

/-- `endTs` is exclusive. -/
structure RtpPacketMeta where
  firstTs : Nat
  endTs : Nat
  deriving DecidableEq, Repr

structure PaceDecision where
  permits : Nat
  wakeAt : Option Instant
  deriving DecidableEq, Repr

structure MediaAnchor where
  instant : Instant
  firstTs : Nat
  initialCredit : Nat
  deriving DecidableEq, Repr

structure RtpTxPacer where
  sampleRate : Nat
  writeAhead : Duration
  anchor : Option MediaAnchor
  lastEndTs : Option Nat
  udpTat : Option Instant
  udpInterval : Duration
  udpBurst : Nat
  deriving DecidableEq, Repr

namespace RtpTxPacer

def new (sampleRate : Nat) (writeAhead udpInterval : Duration) (udpBurst : Nat) :
    Option RtpTxPacer :=
  if udpInterval = 0 then none
  else some ⟨sampleRate, writeAhead, none, none, none, udpInterval, udpBurst⟩

def durationSamples (self : RtpTxPacer) (duration : Duration) : Nat :=
  min (duration * self.sampleRate / nsPerSec) (2 ^ 64 - 1)

/-- At least one complete packet can be sent immediately. -/
def initialCredit (self : RtpTxPacer) (first : RtpPacketMeta) : Nat :=
  max (self.durationSamples self.writeAhead) (first.endTs - first.firstTs)

def mediaDeadline (self : RtpTxPacer) (now : Instant) (packet : RtpPacketMeta) : Instant :=
  match self.anchor with
  | none => now
  | some anchor =>
    let offset := packet.endTs - anchor.firstTs
    let credit := anchor.initialCredit
    if offset ≤ credit then now
    else
      let neededSamples := offset - credit
      let ns := min ((neededSamples * nsPerSec + self.sampleRate - 1) / self.sampleRate)
        (2 ^ 64 - 1)
      anchor.instant + ns

/-- `none` is the failed `expect`. -/
def udpTolerance (self : RtpTxPacer) : Option Duration :=
  let tolerance := self.udpInterval * (self.udpBurst - 1)
  if tolerance < durationLimit then some tolerance else none

def udpDeadline (self : RtpTxPacer) (now : Instant) (tat : Option Instant) : Option Instant :=
  match tat with
  | none => some now
  | some tat =>
    self.udpTolerance.map fun tolerance => if tolerance ≤ tat then tat - tolerance else now

def udpAdvance (self : RtpTxPacer) (now : Instant) (tat : Option Instant) : Option Instant :=
  some (max (tat.getD now) now + self.udpInterval)

/-- The loop of `inspect`; `first` is the packet that it began with. -/
def inspectLoop (self : RtpTxPacer) (now : Instant) :
    List RtpPacketMeta → Nat → Option Instant → Option RtpPacketMeta → Option PaceDecision
  | [], permits, _, _ => some ⟨permits, none⟩
  | packet :: packets, permits, tat, first =>
    if packet.endTs > packet.firstTs then
      let initial := first.getD packet
      let mediaAt :=
        if self.anchor.isSome then some (self.mediaDeadline now packet)
        else
          let credit := self.initialCredit initial
          let offset := packet.endTs - initial.firstTs
          if offset > credit then none else some now
      match mediaAt with
      | none => some ⟨permits, none⟩
      | some mediaAt =>
        match self.udpDeadline now tat with
        | none => none
        | some udpAt =>
          let readyAt := max mediaAt udpAt
          if readyAt > now then some ⟨permits, if permits = 0 then some readyAt else none⟩
          else
            self.inspectLoop now packets (permits + 1) (self.udpAdvance now tat) (some initial)
    else none

/-- Evaluates a prefix of the packets without changing the state. -/
def inspect (self : RtpTxPacer) (now : Instant) (packets : List RtpPacketMeta) (maxBatch : Nat) :
    Option PaceDecision :=
  self.inspectLoop now (packets.take maxBatch) 0 self.udpTat none

/-- One sent packet; it must not begin before the end of the previous one. -/
def commitOne (self : RtpTxPacer) (now : Instant) (packet : RtpPacketMeta) : Option RtpTxPacer :=
  if packet.endTs > packet.firstTs then
    if self.lastEndTs.any fun previous => packet.firstTs < previous then none
    else
      let anchor := self.anchor.getD ⟨now, packet.firstTs, self.initialCredit packet⟩
      some { self with
        anchor := some anchor
        udpTat := self.udpAdvance now self.udpTat
        lastEndTs := some packet.endTs }
  else none

def commit (self : RtpTxPacer) (now : Instant) : List RtpPacketMeta → Option RtpTxPacer
  | [] => some self
  | packet :: packets => (self.commitOne now packet).bind fun self => self.commit now packets

end RtpTxPacer

end Catplay.Model.Rtp
