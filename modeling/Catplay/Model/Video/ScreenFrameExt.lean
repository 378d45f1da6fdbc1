import Catplay.Model.Screen.Codec
import Catplay.Model.Video.AnnexB

/-!
# Screen frames and video frames

`carplay/catplay_carplay/src/screen/screen_frame_ext.rs`: `video_decode` and `video_proxied`, with
`AvccConfigExtended` and `EncodedVideoFrame`. An instant is a number; the clocks are a parameter.
-/

set_option autoImplicit false

namespace Catplay.Model.Video

open Catplay.Library Catplay.Model.Screen

/-- `NalType::from_byte(byte).is_keyframe()`: the slices of an IDR picture are of type 5. -/
def NalType.isKeyframe (byte : UInt8) : Bool := byte &&& 0x1F = 5

/-- `HevcNalType::from_byte(byte).is_irap()`: the types 16 to 21, and up to 31 those reserved. -/
def HevcNalType.isIrap (byte : UInt8) : Bool :=
  let type := (byte >>> 1) &&& 0x3F
  16 ≤ type ∧ type ≤ 31

structure AvccConfig where
  nalSizeLen : Nat
  spsPps : List UInt8
  deriving DecidableEq, Repr

structure AvccConfigExtended where
  hevc : Bool
  avcc : AvccConfig
  videoLatency : Nat
  width : UInt32
  height : UInt32
  respectTimestamps : Bool
  deriving DecidableEq, Repr

structure MediaClock where
  decodeRemote : UInt64 → Option Nat
  encodeLocal : Nat → UInt64

/-- A screen frame with the buffers that it keeps, and the cache of its NAL units. -/
structure BufferedFrame extends ScreenFrame where
  headerBuf : List UInt8
  chachaTagBuf : List UInt8
  nalOffsetCache : List NalChunk
  deriving DecidableEq, Repr

structure EncodedVideoFrame where
  pts : Nat
  width : UInt32
  height : UInt32
  data : List UInt8
  config : Option AvccConfigExtended
  nalOffsets : Option (List NalChunk)
  isKeyframe : Option Bool
  headerBuf : List UInt8
  chachaTagBuf : List UInt8
  deriving DecidableEq, Repr

/-- `Value64::as_u64`. -/
def asU64 (value : Value64) : UInt64 := .ofNat (LittleEndian.ofBytes value.toList)

/-- `Value64::from_u64`. -/
def fromU64 (a : UInt64) : Value64 :=
  .ofFn fun i => (LittleEndian.toBytes 8 a.toNat)[i.val]?.getD 0

/-- `ScreenFrameHeader::default`. -/
def defaultHeader : ScreenFrameHeader :=
  ⟨0, .invalid, .replicate 3 0, .replicate 15 (.replicate 8 0)⟩

namespace BufferedFrame

def scan (self : BufferedFrame) (nalSizeLen : Nat) (fromLengthPrefixed : Bool) :
    Nal BufferedFrame := do
  let nalOffsetCache ← AnnexBConverter.scanOnly self.data nalSizeLen fromLengthPrefixed
  pure { self with nalOffsetCache }

/-- The cache stays as it is. -/
def convertStartcodes (self : BufferedFrame) (nalSizeLen : Nat) (toAnnexB : Bool) :
    Nal BufferedFrame := do
  let converter := AnnexBConverter.withCache nalSizeLen self.nalOffsetCache
  if toAnnexB then
    let (data, _) ← converter.convert self.data false
    pure { self with data }
  else
    if nalSizeLen ≠ 4 then throw .param
    let (data, _) ← converter.convert self.data true
    pure { self with data }

def videoAvcc (data : List UInt8) (pts : Nat) (clock : MediaClock) : BufferedFrame where
  header :=
    { defaultHeader with
      opcode := .videoFrame
      params := defaultHeader.params.set 0 (fromU64 (clock.encodeLocal pts)) }
  data
  headerBuf := []
  chachaTagBuf := []
  nalOffsetCache := []

def videoAnnexBCached (data : List UInt8) (nalSizeLen : Nat) (pts : Nat) (clock : MediaClock)
    (cache : List NalChunk) : Nal BufferedFrame :=
  convertStartcodes { videoAvcc data pts clock with nalOffsetCache := cache } nalSizeLen false

def videoProxied (other : EncodedVideoFrame) (nalSizeLen : Nat) (clock : MediaClock) :
    Nal BufferedFrame := do
  let me ← videoAnnexBCached other.data nalSizeLen other.pts clock (other.nalOffsets.getD [])
  pure { me with headerBuf := other.headerBuf, chachaTagBuf := other.chachaTagBuf }

/-- `now` is the time. -/
def videoDecode (self : BufferedFrame) (config : AvccConfigExtended) (clock : MediaClock)
    (now : Nat) : Nal (Option EncodedVideoFrame) :=
  if self.header.opcode ≠ .videoFrame ∨ self.data.isEmpty then pure none
  else do
    let nalSizeLen := config.avcc.nalSizeLen
    let ptsDecoded := clock.decodeRemote (asU64 self.header.params[0])
    let ptsDecoded := if config.respectTimestamps then ptsDecoded else some now
    let nalByte := self.data[nalSizeLen]?.getD 0
    let isKeyframe := if config.hevc then HevcNalType.isIrap nalByte else NalType.isKeyframe nalByte
    let self ← self.scan nalSizeLen true
    let self ← self.convertStartcodes nalSizeLen true
    pure (some {
      pts := ptsDecoded.getD now
      width := config.width
      height := config.height
      data := self.data
      config := some config
      nalOffsets := some self.nalOffsetCache
      isKeyframe := some isKeyframe
      headerBuf := self.headerBuf
      chachaTagBuf := self.chachaTagBuf })

end BufferedFrame

end Catplay.Model.Video
