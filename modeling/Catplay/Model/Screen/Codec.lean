import Catplay.Model.Hap.Cipher
import Mathlib.Data.Vector.Defs

/-!
# The screen stream

`carplay/catplay_carplay/src/screen`: frames and their codec.
-/

set_option autoImplicit false

/-!
## Screen frames

`carplay/catplay_carplay/src/screen/screen_frame.rs`. The buffers that a frame keeps for its header
and its tag, and the cache of its NAL units, are not part of what is sent.
-/

namespace Catplay.Model.Screen

open Catplay.Library

inductive ScreenOpCode
  | videoFrame
  | videoConfig
  | keepAlive
  | forceKeyFrame
  | ignore
  | keepAliveWithBody
  | invalid
  deriving DecidableEq, Repr

namespace ScreenOpCode

/-- `self as u8`. -/
def toU8 : ScreenOpCode → UInt8
  | videoFrame => 0
  | videoConfig => 1
  | keepAlive => 2
  | forceKeyFrame => 3
  | ignore => 4
  | keepAliveWithBody => 5
  | invalid => 255

def parse (val : UInt8) : ScreenOpCode :=
  if val = toU8 videoFrame then videoFrame
  else if val = toU8 videoConfig then videoConfig
  else if val = toU8 keepAlive then keepAlive
  else if val = toU8 forceKeyFrame then forceKeyFrame
  else if val = toU8 ignore then ignore
  else if val = toU8 keepAliveWithBody then keepAliveWithBody
  else invalid

@[simp] theorem parse_toU8 (opcode : ScreenOpCode) : parse opcode.toU8 = opcode := by
  cases opcode <;> decide

end ScreenOpCode

abbrev Value64 := Vector UInt8 8

def screenFrameHeaderLen : Nat := 128

structure ScreenFrameHeader where
  bodySize : UInt32
  opcode : ScreenOpCode
  smallParam : Vector UInt8 3
  params : Vector Value64 15
  deriving DecidableEq, Repr

namespace ScreenFrameHeader

def size : Nat := screenFrameHeaderLen

def paramsOffset : Nat := 8

/-- `buf[i]` of a buffer that is long enough. -/
def byteAt (buf : List UInt8) (i : Nat) : UInt8 := buf[i]?.getD 0

def fromBytes (buf : List UInt8) : Option ScreenFrameHeader :=
  if buf.length < screenFrameHeaderLen then none
  else
    some {
      bodySize := .ofNat (LittleEndian.ofBytes (buf.take 4))
      opcode := .parse (byteAt buf 4)
      smallParam := #v[byteAt buf 5, byteAt buf 6, byteAt buf 7]
      params := .ofFn fun i => .ofFn fun j => byteAt buf (paramsOffset + i * 8 + j) }

def write (self : ScreenFrameHeader) : List UInt8 :=
  LittleEndian.toBytes 4 self.bodySize.toNat ++ [self.opcode.toU8] ++ self.smallParam.toList ++
    self.params.toList.flatMap (·.toList)

end ScreenFrameHeader

structure ScreenFrame where
  header : ScreenFrameHeader
  data : List UInt8
  deriving DecidableEq, Repr

def ScreenFrame.write (self : ScreenFrame) : List UInt8 := self.header.write ++ self.data

end Catplay.Model.Screen

/-!
## The codec of the screen stream

`carplay/catplay_carplay/src/screen/screen_frame_codec.rs`. A buffer is the list of its bytes. The
alignment of the buffer, the count of the chunks and the sizes to prefetch change nothing of what is
decoded and are left out.
-/

namespace Catplay.Model.Screen

open Catplay.Model.Hap

inductive RtspError
  | payloadTooBig (size limit : Nat)
  | cipher (error : HomeKitCipherError)
  deriving DecidableEq, Repr

structure ScreenFrameCodecFlags where
  preferPolySkip : Bool := false
  preferPrefetchChacha : Bool := false
  deriving DecidableEq, Repr

inductive ScreenFrameCodecCrypto
  | chacha (readCipher writeCipher : HomeKitCipher) (counterRx counterTx : HomeKitChaChaNonce)
  | aesCtr (readCipher writeCipher : Aes128Ctr)
  deriving DecidableEq, Repr

/-- `header` is the header of a frame whose body is still coming in, with its nonce and the count of
the bytes that are decrypted. -/
structure ScreenFrameCodec where
  header : Option (ScreenFrameHeader × Option HomeKitChaChaNonce × Nat)
  crypto : Option ScreenFrameCodecCrypto
  flags : ScreenFrameCodecFlags
  deriving DecidableEq, Repr

namespace ScreenFrameCodec

def maxPayloadSize : Nat := 4 * 1024 * 1024
def chachaTagLen : Nat := 16

/-! ### Construction -/

/-- `create_chacha_ciphers`: the read and the write cipher of one side, from the two keys. -/
def createChachaCiphers (new : Key → HomeKitCipher) (readKey writeKey : Key) (server : Bool) :
    HomeKitCipher × HomeKitCipher :=
  let readCipher := new readKey
  let writeCipher := new writeKey
  match server with
  | false => (readCipher, writeCipher)
  | true => (writeCipher, readCipher)

def chachaWithFlags (new : Key → HomeKitCipher) (readKey writeKey : Key) (server : Bool)
    (flags : ScreenFrameCodecFlags) : ScreenFrameCodec :=
  let (readCipher, writeCipher) := createChachaCiphers new readKey writeKey server
  let readCipher := if flags.preferPolySkip then readCipher.setPreferPolySkip else readCipher
  { header := none
    crypto := some (.chacha readCipher writeCipher 0 0)
    flags }

def aesWithFlags (videoKey videoIv : Vector UInt8 16) (flags : ScreenFrameCodecFlags) :
    ScreenFrameCodec where
  header := none
  crypto := some (.aesCtr (.new videoKey videoIv) (.new videoKey videoIv))
  flags

def unencrypted : ScreenFrameCodec where
  header := none
  crypto := none
  flags := {}

def isChacha (self : ScreenFrameCodec) : Bool :=
  match self.crypto with
  | some (.chacha ..) => true
  | _ => false

/-! ### Decoding -/

/-- The body that has come in so far, after a call of a cipher for a chunk of it. -/
structure Chunk where
  codec : ScreenFrameCodec
  body : List UInt8
  decryptNonce : Option HomeKitChaChaNonce
  /-- How much has been decrypted. -/
  result : Except RtspError Nat

/-- `decrypt_video_frame_chunk_chacha`: `src` without the header is `body`. -/
def decryptVideoFrameChunkChacha (backend : Backend) (self : ScreenFrameCodec)
    (readCipher writeCipher : HomeKitCipher) (counterRx counterTx : HomeKitChaChaNonce)
    (headerRaw body : List UInt8) (bodySize : Nat) (decryptNonce : Option HomeKitChaChaNonce)
    (decryptedPayloadLen currentBodyAndTagLen : Nat) : Chunk :=
  let (nonce, counterRx) :=
    match decryptNonce with
    | some nonce => (nonce, counterRx)
    | none => counterRx.advance
  let isFinalChunk := currentBodyAndTagLen = bodySize
  let (readCipher, bodyAndTag, result) :=
    readCipher.decryptProgressive backend (body.take currentBodyAndTagLen) headerRaw nonce
      decryptedPayloadLen currentBodyAndTagLen bodySize
  let body := bodyAndTag ++ body.drop currentBodyAndTagLen
  match result with
  | .error e =>
    { codec := { self with crypto := some (.chacha readCipher writeCipher counterRx counterTx) }
      body
      decryptNonce := some nonce
      result := .error (.cipher e) }
  | .ok decryptedChunkLen =>
    let readCipher :=
      if isFinalChunk ∧ self.flags.preferPrefetchChacha then readCipher.resetPrefetch
      else readCipher
    { codec := { self with crypto := some (.chacha readCipher writeCipher counterRx counterTx) }
      body
      decryptNonce := some nonce
      result := .ok decryptedChunkLen }

/-- `decrypt_video_frame_chunk_aes`. -/
def decryptVideoFrameChunkAes (backend : Backend) (self : ScreenFrameCodec)
    (readCipher writeCipher : Aes128Ctr) (body : List UInt8)
    (decryptNonce : Option HomeKitChaChaNonce) (decryptedPayloadLen currentBodyLen : Nat) : Chunk :=
  let decryptedChunkLen := currentBodyLen - decryptedPayloadLen
  if decryptedChunkLen > 0 then
    let (readCipher, chunk) :=
      readCipher.applyKeystream backend ((body.take currentBodyLen).drop decryptedPayloadLen)
    { codec := { self with crypto := some (.aesCtr readCipher writeCipher) }
      body := body.take decryptedPayloadLen ++ chunk ++ body.drop currentBodyLen
      decryptNonce
      result := .ok decryptedChunkLen }
  else ⟨self, body, decryptNonce, .ok decryptedChunkLen⟩

def decryptVideoFrameChunk (backend : Backend) (self : ScreenFrameCodec)
    (headerRaw body : List UInt8) (bodySize : Nat) (decryptNonce : Option HomeKitChaChaNonce)
    (decryptedPayloadLen currentBodyAndTagLen : Nat) : Chunk :=
  match self.crypto with
  | some (.chacha readCipher writeCipher counterRx counterTx) =>
    self.decryptVideoFrameChunkChacha backend readCipher writeCipher counterRx counterTx headerRaw
      body bodySize decryptNonce decryptedPayloadLen currentBodyAndTagLen
  | some (.aesCtr readCipher writeCipher) =>
    self.decryptVideoFrameChunkAes backend readCipher writeCipher body decryptNonce
      decryptedPayloadLen currentBodyAndTagLen
  | none => ⟨self, body, decryptNonce, .ok 0⟩

/-- What a call of the codec returns, with the codec and the buffer it leaves. -/
abbrev Answer := Except RtspError (Option ScreenFrame) × ScreenFrameCodec × List UInt8

/-- The second half of `decode`: a header has been read, and `self.header` has been taken. -/
def decodeBody (backend : Backend) (self : ScreenFrameCodec) (header : ScreenFrameHeader)
    (decryptNonce : Option HomeKitChaChaNonce) (decryptedPayloadLen : Nat) (src : List UInt8) :
    Answer :=
  if header.bodySize.toNat > maxPayloadSize then
    (.error (.payloadTooBig header.bodySize.toNat maxPayloadSize), self, src)
  else
    let headerSize := ScreenFrameHeader.size
    let bodySize := header.bodySize.toNat
    let frameSize := headerSize + bodySize
    let headerRaw := src.take headerSize
    let videoIsEncrypted := header.opcode = .videoFrame ∧ self.crypto.isSome
    if src.length < frameSize then
      if videoIsEncrypted then
        let currentBodyAndTagLen := src.length - headerSize
        let chunk := self.decryptVideoFrameChunk backend headerRaw (src.drop headerSize) bodySize
          decryptNonce decryptedPayloadLen currentBodyAndTagLen
        let src := headerRaw ++ chunk.body
        match chunk.result with
        | .error e => (.error e, chunk.codec, src)
        | .ok decryptedChunkLen =>
          (.ok none,
            { chunk.codec with
              header := some (header, chunk.decryptNonce,
                decryptedPayloadLen + decryptedChunkLen) },
            src)
      else
        (.ok none, { self with header := some (header, decryptNonce, decryptedPayloadLen) }, src)
    else if videoIsEncrypted then
      let chunk := self.decryptVideoFrameChunk backend headerRaw (src.drop headerSize) bodySize
        decryptNonce decryptedPayloadLen bodySize
      match chunk.result with
      | .error e => (.error e, chunk.codec, headerRaw ++ chunk.body)
      | .ok _ =>
        let frame :=
          if self.isChacha then
            let dataAndTag := chunk.body.take bodySize
            { header := { header with bodySize := .ofNat (bodySize - chachaTagLen) }
              data := dataAndTag.take (bodySize - chachaTagLen) }
          else ⟨header, chunk.body.take bodySize⟩
        (.ok (some frame), chunk.codec, chunk.body.drop bodySize)
    else
      (.ok (some ⟨header, (src.drop headerSize).take bodySize⟩), self, src.drop frameSize)

/-- A header that has just been read is put into the codec and taken out again. -/
def decode (backend : Backend) (self : ScreenFrameCodec) (src : List UInt8) : Answer :=
  match self.header with
  | none =>
    if src.length < ScreenFrameHeader.size then (.ok none, self, src)
    else
      match ScreenFrameHeader.fromBytes (src.take ScreenFrameHeader.size) with
      | none => (.ok none, self, src)
      | some header => { self with header := none }.decodeBody backend header none 0 src
  | some (header, decryptNonce, decryptedPayloadLen) =>
    { self with header := none }.decodeBody backend header decryptNonce decryptedPayloadLen src

/-! ### Encoding -/

/-- `encode_composite`, the parts put together. -/
def encode (backend : Backend) (self : ScreenFrameCodec) (frame : ScreenFrame) :
    Except RtspError (ScreenFrameCodec × List UInt8) :=
  let header := { frame.header with bodySize := .ofNat frame.data.length }
  match header.opcode, self.crypto with
  | .videoFrame, some (.chacha readCipher writeCipher counterRx counterTx) =>
    let (nonce, counterTx) := counterTx.advance
    let header := { header with bodySize := header.bodySize + UInt32.ofNat chachaTagLen }
    let headerBuf := header.write
    match writeCipher.encrypt backend frame.data headerBuf nonce with
    | .error e => .error (.cipher e)
    | .ok (data, tag) =>
      let writeCipher :=
        if self.flags.preferPrefetchChacha then writeCipher.resetPrefetch else writeCipher
      .ok ({ self with crypto := some (.chacha readCipher writeCipher counterRx counterTx) },
        headerBuf ++ data ++ tag.toList)
  | .videoFrame, some (.aesCtr readCipher writeCipher) =>
    let (writeCipher, data) := writeCipher.applyKeystream backend frame.data
    .ok ({ self with crypto := some (.aesCtr readCipher writeCipher) }, header.write ++ data)
  | _, _ => .ok (self, (ScreenFrame.mk header frame.data).write)

/-- Frames one after the other. -/
def encodeAll (backend : Backend) :
    ScreenFrameCodec → List ScreenFrame → Except RtspError (ScreenFrameCodec × List UInt8)
  | self, [] => .ok (self, [])
  | self, frame :: frames =>
    match self.encode backend frame with
    | .error e => .error e
    | .ok (self, bytes) =>
      match encodeAll backend self frames with
      | .error e => .error e
      | .ok (self, more) => .ok (self, bytes ++ more)

end ScreenFrameCodec

end Catplay.Model.Screen
