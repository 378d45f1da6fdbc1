import Catplay.Library.Chunks
import Catplay.Model.Link.Packet
import Catplay.Model.Lingo.FrameCodec

/-!
# The byte stream of the iAP2 link

`core/catplay_iap2_link/src/packet_coder.rs` with the checksums of `crc.rs` and the header
bytes of `header.rs`, built with the `lingo` feature. `decode` returns its result next to the
bytes that it leaves in the buffer.
-/

set_option autoImplicit false

namespace Catplay.Model.Link

open Catplay.Library

/-! ## Checksums -/

/-- Accepts data without the checksum byte. -/
def iap2GenChecksum (data : Bytes) : UInt8 :=
  let sum := data.foldl (fun acc b => acc + b) 0
  ~~~sum + 1

/-- One pass of the loop over sixteen bytes, on the four sums. -/
def addChunk (acc : UInt32 × UInt32 × UInt32 × UInt32) (chunk : Bytes) :
    UInt32 × UInt32 × UInt32 × UInt32 :=
  let byte (i : Nat) : UInt32 := (chunk.getD i 0).toUInt32
  (acc.1 + (byte 0 + byte 4 + byte 8 + byte 12),
    acc.2.1 + (byte 1 + byte 5 + byte 9 + byte 13),
    acc.2.2.1 + (byte 2 + byte 6 + byte 10 + byte 14),
    acc.2.2.2 + (byte 3 + byte 7 + byte 11 + byte 15))

def sumBlockU32 (data : Bytes) : UInt32 :=
  let chunks := chunksExact 16 data
  let acc := chunks.1.foldl addChunk (0, 0, 0, 0)
  chunks.2.foldl (fun sum b => sum + b.toUInt32) (acc.1 + acc.2.1 + acc.2.2.1 + acc.2.2.2)

def iap2GenChecksumFast (data : Bytes) : UInt8 :=
  let sum := (chunks 1024 data).foldl (fun sum block => sum + (sumBlockU32 block).toUInt8) 0
  ~~~sum + 1

/-- Accepts full data with the checksum byte. -/
def iap2CheckChecksum (data : Bytes) : Bool := iap2GenChecksum data == 0

def iap2CheckChecksumFast (data : Bytes) : Bool := iap2GenChecksumFast data == 0

/-! ## Headers -/

inductive PacketCoderError
  | headerInvalidMagic
  | headerChecksumInvalid (expected actual : UInt8)
  | headerNotEnoughBytes (received : Nat)
  | invalidLength (length : Nat)
  | payloadTooShort (received expected : Nat)
  | payloadChecksumInvalid (expected actual : UInt8)
  | legacy (error : Lingo.LinkError)
  | legacyChecksumInvalid
  deriving DecidableEq, Repr

def iap2HeaderStart : UInt16 := 0xFF5A

def iap2HeaderSize : Nat := 9

namespace Header

def parse (data : Bytes) : Except PacketCoderError Header :=
  match data with
  | d0 :: d1 :: d2 :: d3 :: d4 :: d5 :: d6 :: d7 :: d8 :: _ =>
    if fromBeBytes d0 d1 ≠ iap2HeaderStart then .error .headerInvalidMagic
    else if !iap2CheckChecksum [d0, d1, d2, d3, d4, d5, d6, d7, d8] then
      .error (.headerChecksumInvalid (iap2GenChecksum [d0, d1, d2, d3, d4, d5, d6, d7]) d8)
    else
      .ok {
        length := fromBeBytes d2 d3
        control := .fromBitsTruncate d4
        seq := d5
        ack := d6
        sessionId := d7 }
  | _ => .error (.headerNotEnoughBytes data.length)

def toBytes (self : Header) : Bytes :=
  let buf := toBeBytes iap2HeaderStart ++ toBeBytes self.length ++
    [self.control.bits, self.seq, self.ack, self.sessionId]
  buf ++ [iap2GenChecksum buf]

end Header

/-! ## The coder -/

structure PacketCoder where
  streamingMode : Bool
  deriving DecidableEq, Repr

inductive FrameStart
  | legacy
  | iap2
  deriving DecidableEq, Repr

namespace PacketCoder

def iap2Handshake : Bytes := [0xFF, 0x55, 0x02, 0x00, 0xEE, 0x10]

/-- Drop what is in front of the next marker. A single trailing byte may be the first half
of one. -/
def rewind : Bytes → Option FrameStart × Bytes
  | [] => (none, [])
  | [x] => (none, if x = 0xff ∨ x = 0x55 then [x] else [])
  | x :: y :: src =>
    if x = 0xff ∧ y = 0x5a then (some .iap2, x :: y :: src)
    else if x = 0x55 then (some .legacy, x :: y :: src)
    else rewind (y :: src)

def decodeLegacy (src : Bytes) : Except PacketCoderError (Option PacketOrDetect) × Bytes :=
  match Lingo.FrameCodec.decode src with
  | .error e => (.error (.legacy e), src)
  | .ok none => (.ok none, src)
  | .ok (some (frame, frameLen)) =>
    let consumed := frameLen + 1
    if src.length < consumed then (.ok none, src)
    else if !iap2CheckChecksumFast ((src.take consumed).drop 1) then
      (.error .legacyChecksumInvalid, src)
    else if frame.body = [0x00, 0xee] then (.ok (some .detect), src.drop consumed)
    else (.ok (some (.legacy frame.body)), src.drop consumed)

/-- The bytes of one packet behind its header. -/
def decodePayload (header : Header) (fullPayload : Bytes) :
    Except PacketCoderError (Option PacketOrDetect) :=
  if fullPayload.isEmpty then .ok (some (.packet ⟨header, none⟩))
  else if fullPayload = [0] then .ok (some (.packet ⟨header, some []⟩))
  else
    let realPayload := fullPayload.dropLast
    if !iap2CheckChecksumFast fullPayload then
      .error (.payloadChecksumInvalid (iap2GenChecksumFast realPayload) (fullPayload.getLastD 0))
    else .ok (some (.packet ⟨header, some realPayload⟩))

/-- The part of `decode` for a buffer that starts with the marker of a packet. -/
def decodePacket (self : PacketCoder) (src : Bytes) :
    Except PacketCoderError (Option PacketOrDetect) × Bytes :=
  if src.length < iap2HeaderSize then
    if !self.streamingMode then (.error (.headerNotEnoughBytes src.length), src)
    else (.ok none, src)
  else
    match Header.parse src with
    | .error e => (.error e, src)
    | .ok header =>
      let length := header.length.toNat
      let readable := src.length - iap2HeaderSize
      if length < iap2HeaderSize then (.error (.invalidLength length), src)
      else if readable < length - iap2HeaderSize then
        if !self.streamingMode then (.error (.payloadTooShort readable length), src)
        else (.ok none, src)
      else
        (decodePayload header ((src.take length).drop iap2HeaderSize), src.drop length)

def decode (self : PacketCoder) (src : Bytes) :
    Except PacketCoderError (Option PacketOrDetect) × Bytes :=
  match rewind src with
  | (none, src) => (.ok none, src)
  | (some .legacy, src) => decodeLegacy src
  | (some .iap2, src) => self.decodePacket src

/-- The bytes that `encode` appends. -/
def encode (item : PacketOrDetect) : Except PacketCoderError Bytes :=
  match item with
  | .legacy body =>
    match Lingo.FrameCodec.encode body with
    | .error e => .error (.legacy e)
    | .ok encoded => .ok (encoded ++ [iap2GenChecksumFast (encoded.drop 1)])
  | .packet item =>
    match item.payload with
    | some payload => .ok (item.header.toBytes ++ payload ++ [iap2GenChecksumFast payload])
    | none => .ok item.header.toBytes
  | .detect => .ok iap2Handshake

end PacketCoder

end Catplay.Model.Link
