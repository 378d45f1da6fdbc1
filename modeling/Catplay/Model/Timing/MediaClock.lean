import Mathlib.Algebra.Order.Group.Int
import Mathlib.Data.Int.Bitwise
import Mathlib.Data.UInt

/-!
# The media clock

The clock of `carplay/catplay_carplay/src/clock`: NTP stamps and sync packets
(`rtcp_timesync.rs`), the offset between two clocks (`media_pll.rs`), clocks (`media_clock.rs`) and
the session that keeps the offset (`media_session.rs`). An `Instant` is a number of nanoseconds;
a call that reads the time is given it. The `i128` of the source is an integer: nothing here comes
near its bounds.
-/

set_option autoImplicit false

namespace Catplay.Model.Timing

abbrev Instant := Int

def i128Max : Int := 2 ^ 127 - 1

/-! ## NTP stamps -/

/-- Seconds and their fraction, 32 bits each. -/
abbrev NtpU64 := UInt64

namespace NtpU64

def zero : NtpU64 := 0

def fromMonotonicNanos (nanos : Int) : NtpU64 :=
  let secs := nanos / 1000000000
  let fracNanos := (nanos % 1000000000).toNat
  let frac := fracNanos * 2 ^ 32 / 1000000000
  ((Int64.ofInt secs).toUInt64 <<< 32) ||| UInt64.ofNat frac

/-- The seconds are read as a signed number. -/
def asNanos (self : NtpU64) : Int :=
  let secs := (self >>> 32).toUInt32.toInt32.toInt
  let frac := (self &&& 0xFFFFFFFF).toNat
  let fracNanos : Nat := frac * 1000000000 / 2 ^ 32
  secs * 1000000000 + fracNanos

def diffInNanos (a b : NtpU64) : Int := asNanos a - asNanos b

end NtpU64

/-! ## Sync packets -/

structure RtcpHeader where
  vPM : UInt8
  pt : UInt8
  length : UInt16
  deriving DecidableEq, Repr

structure RtcpTimeSyncPacket where
  header : RtcpHeader
  rtpTs : UInt32
  t1 : NtpU64
  t2 : NtpU64
  t3 : NtpU64
  deriving DecidableEq, Repr

namespace RtcpTimeSyncPacket

def ptTimesyncRequest : UInt8 := 0xD2

def ptTimesyncResponse : UInt8 := 0xD3

def bytes : Nat := 32

def rttNs (self : RtcpTimeSyncPacket) (t4 : NtpU64) : Int :=
  max (NtpU64.diffInNanos t4 self.t1 - NtpU64.diffInNanos self.t3 self.t2) 0

def offsetNs (self : RtcpTimeSyncPacket) (t4 : NtpU64) : Int :=
  (NtpU64.diffInNanos self.t2 self.t1 + NtpU64.diffInNanos self.t3 t4).tdiv 2

/-- The length has its bytes swapped; `serialize` writes it anew. -/
def buildResponse (t1 t2 t3 : NtpU64) : RtcpTimeSyncPacket where
  header := ⟨(2 : UInt8) <<< 6, ptTimesyncResponse, .ofNat ((bytes / 4 - 1) * 256)⟩
  rtpTs := 0
  t1
  t2
  t3

def buildRequest (t1 : NtpU64) : RtcpTimeSyncPacket where
  header := ⟨(2 : UInt8) <<< 6, ptTimesyncRequest, 0⟩
  rtpTs := 0
  t1 := .zero
  t2 := .zero
  t3 := t1

end RtcpTimeSyncPacket

/-! ## The offset -/

structure MediaPll where
  offsetNs : Int
  phaseAdjustNs : Int
  freqOffsetNsPerS : Int
  lastAdjustNs : Int
  driftBaseNs : Int
  deriving DecidableEq, Repr

namespace MediaPll

def disablePll : Bool := true

def new (nowNs offsetNs : Int) : MediaPll where
  offsetNs
  phaseAdjustNs := 0
  freqOffsetNsPerS := 0
  lastAdjustNs := nowNs
  driftBaseNs := nowNs

def localToRemote (self : MediaPll) (localNs : Int) : Int :=
  if disablePll then localNs + self.offsetNs
  else
    let dtNs := localNs - self.driftBaseNs
    let drift := (self.freqOffsetNsPerS * dtNs).tdiv 1000000000
    localNs + self.offsetNs + (self.phaseAdjustNs + drift)

def remoteToLocal (self : MediaPll) (remoteNs : Int) : Int :=
  if disablePll then remoteNs - self.offsetNs
  else
    let denom := 1000000000 + self.freqOffsetNsPerS
    let num := remoteNs - self.offsetNs - self.phaseAdjustNs - self.driftBaseNs
    self.driftBaseNs + (num * 1000000000).tdiv denom

def clamp (x bound : Int) : Int := max (-bound) (min bound x)

/-- The phase and the frequency follow the error; the offset stays. -/
def update (self : MediaPll) (nowNs phaseErrorNs : Int) : MediaPll :=
  let dtNs := nowNs - self.lastAdjustNs
  if dtNs ≤ 0 then self
  else
    let baseDtNs := nowNs - self.driftBaseNs
    let phaseAdjustNs :=
      if baseDtNs ≠ 0 ∧ self.freqOffsetNsPerS ≠ 0 then
        self.phaseAdjustNs + (self.freqOffsetNsPerS * baseDtNs).tdiv 1000000000
      else self.phaseAdjustNs
    let phase := clamp phaseErrorNs 500000000
    let corrFreq := ((phase >>> 8) * dtNs).tdiv 1000000000
    { self with
      driftBaseNs := nowNs
      freqOffsetNsPerS := clamp (self.freqOffsetNsPerS + corrFreq) 500000
      phaseAdjustNs := phaseAdjustNs - (phase >>> 4)
      lastAdjustNs := nowNs }

end MediaPll

/-! ## Clocks -/

/-- The trait `Clock`; `elapsed_ns` is given the time. -/
structure Clock where
  elapsedNs : Instant → Int
  encodeNs : Instant → Int
  decodeNs : Int → Instant

/-- `ClockMonotonic`. Before its start it stands still; a difference is cast to 64 bits when it is
decoded. -/
def clockMonotonic (start : Instant) (baseNs : Nat) : Clock where
  elapsedNs now := baseNs + max (now - start) 0
  encodeNs pts := baseNs + max (pts - start) 0
  decodeNs ns :=
    let delta := ns - baseNs
    if delta ≥ 0 then start + delta % 2 ^ 64 else start - (-delta) % 2 ^ 64

/-! ## The session -/

def ntpUnixEpochOffsetNs : Int := 2208988800 * 1000000000

structure MediaClockSession where
  clock : Clock
  pll : Option MediaPll
  lastT3 : Option NtpU64
  initialized : Bool
  syncs : Nat
  bestRtt : Int
  bestOffset : Int

namespace MediaClockSession

def newWithClock (clock : Clock) : MediaClockSession where
  clock
  pll := none
  lastT3 := none
  initialized := false
  syncs := 0
  bestRtt := i128Max
  bestOffset := 0

def decodeRemote (self : MediaClockSession) (pts : NtpU64) : Option Instant :=
  match self.pll with
  | none => none
  | some pll =>
    if !self.initialized then none
    else some (self.clock.decodeNs (pll.remoteToLocal pts.asNanos))

def encodeLocal (self : MediaClockSession) (pts : Instant) : NtpU64 :=
  .fromMonotonicNanos (self.clock.encodeNs pts)

/-- As an iPhone: the answer to a time sync request. -/
def respond (self : MediaClockSession) (ping : RtcpTimeSyncPacket) (now : Instant) :
    RtcpTimeSyncPacket :=
  let now := NtpU64.fromMonotonicNanos (self.clock.elapsedNs now + ntpUnixEpochOffsetNs)
  .buildResponse ping.t3 now now

/-- As a head unit: the packet to send. -/
def createPing (self : MediaClockSession) (now : Instant) :
    MediaClockSession × RtcpTimeSyncPacket :=
  let t1 := NtpU64.fromMonotonicNanos (self.clock.elapsedNs now + ntpUnixEpochOffsetNs)
  ({ self with lastT3 := some t1 }, .buildRequest t1)

def resetThreshold : Nat := 100000000

def syncsToInitialize : Nat := 3

/-- As a head unit: a response that came. -/
def feed (self : MediaClockSession) (resp : RtcpTimeSyncPacket) (now : Instant) :
    MediaClockSession :=
  let nowNs := self.clock.elapsedNs now + ntpUnixEpochOffsetNs
  let t4 := NtpU64.fromMonotonicNanos nowNs
  let offset := resp.offsetNs t4
  let rtt := resp.rttNs t4
  if !self.initialized then
    let self := { self with syncs := self.syncs + 1 }
    let self :=
      if rtt < self.bestRtt then { self with bestRtt := rtt, bestOffset := offset } else self
    if self.syncs ≥ syncsToInitialize then
      { self with pll := some (.new nowNs self.bestOffset), initialized := true }
    else self
  else if self.lastT3 ≠ some resp.t1 then self
  else
    match self.pll with
    | none => self
    | some pll =>
      let deltaOffset := offset - pll.offsetNs
      if deltaOffset.natAbs > resetThreshold then { self with pll := some (.new nowNs offset) }
      else { self with pll := some (pll.update nowNs deltaOffset) }

end MediaClockSession

end Catplay.Model.Timing
