import Catplay.Library.Chunks
import Catplay.Model.Rtsp.Frame

/-!
# The codecs of a connection

The cipher codec and the frame codec of RTSP, and the transport codec that joins them.
-/

set_option autoImplicit false

/-!
## The cipher codec

`carplay/catplay_carplay/src/rtsp_transport/airplay_cipher_codec.rs`. The cipher behind it is a
parameter; a buffer is the list of its bytes.
-/

namespace Catplay.Model.Rtsp

open Catplay.Library.Buffer

/-- `HomeKitCipher` with one key: the ciphertext and its tag, and the way back. -/
structure Cipher where
  encrypt : (data aad : List UInt8) → (nonce : Nat) → List UInt8 × List UInt8
  decrypt : (dataAndTag aad : List UInt8) → (nonce : Nat) → Option (List UInt8)

structure CipherCodec where
  readCipher : Cipher
  writeCipher : Cipher
  counterRx : Nat
  counterTx : Nat

/-- What stops the cipher codec: a limit, or a tag that does not fit. -/
inductive CipherError
  | payloadTooBig (size limit : Nat)
  | invalidSignature
  deriving DecidableEq, Repr

namespace CipherCodec

/-- Ethernet MTU less the IPv6 and TCP headers. -/
def mtuMax : Nat := 1440
def overheadBytes : Nat := 16 + 2
def headerLen : Nat := 2

/-- `u16::to_le_bytes`. -/
def leBytes (n : Nat) : List UInt8 := [.ofNat (n % 256), .ofNat (n / 256 % 256)]

/-- `u16::from_le_bytes` of the two bytes at a position. -/
def fromLeBytes (src : List UInt8) (position : Nat) : Nat :=
  (src[position]?.getD 0).toNat + 256 * (src[position + 1]?.getD 0).toNat

/-- One round of the loop of `encode_mtu_in_place`: the chunk `idx` moves to its place and is
sealed there. The cursors are those before the round. -/
def sealChunk (codec : CipherCodec) (maxPlaintext idx plainCursor encryptedCursor : Nat)
    (data : List UInt8) : List UInt8 × Nat × Nat :=
  let len := min maxPlaintext plainCursor
  let plainCursor := plainCursor - len
  let chunkStart := encryptedCursor - (len + overheadBytes)
  let payloadStart := chunkStart + headerLen
  let tagStart := payloadStart + len
  let aad := leBytes len
  let data := copyWithin data plainCursor (plainCursor + len) payloadStart
  let data := overwrite data chunkStart aad
  let (ciphertext, tag) :=
    codec.writeCipher.encrypt ((data.take (payloadStart + len)).drop payloadStart) aad
      (codec.counterTx + idx)
  let data := overwrite data payloadStart ciphertext
  (overwrite data tagStart tag, plainCursor, chunkStart)

/-- The loop over `(0..chunks).rev()`. -/
def sealChunks (codec : CipherCodec) (maxPlaintext : Nat) :
    Nat → Nat → Nat → List UInt8 → List UInt8
  | 0, _, _, data => data
  | idx + 1, plainCursor, encryptedCursor, data =>
    let (data, plainCursor, encryptedCursor) :=
      sealChunk codec maxPlaintext idx plainCursor encryptedCursor data
    sealChunks codec maxPlaintext idx plainCursor encryptedCursor data

def encodeMtuInPlace (codec : CipherCodec) (data : List UInt8) (mtu : Nat) :
    Except CipherError (CipherCodec × List UInt8) :=
  let maxPlaintext := mtu - overheadBytes
  if maxPlaintext = 0 then .error (.payloadTooBig 0 0)
  else if maxPlaintext > 65535 then .error (.payloadTooBig maxPlaintext 65535)
  else if data.isEmpty then .ok (codec, data)
  else
    let chunks := (data.length + maxPlaintext - 1) / maxPlaintext
    let encryptedLen := data.length + chunks * overheadBytes
    let resized := data ++ List.replicate (encryptedLen - data.length) 0
    .ok ({ codec with counterTx := codec.counterTx + chunks },
      sealChunks codec maxPlaintext chunks data.length encryptedLen resized)

def encodeInPlace (codec : CipherCodec) (data : List UInt8) :
    Except CipherError (CipherCodec × List UInt8) :=
  encodeMtuInPlace codec data mtuMax

/-- What a call of `decode` comes to, with the codec and the buffer it leaves. -/
def decode (codec : CipherCodec) (src : List UInt8) :
    Except CipherError (Option (List UInt8)) × CipherCodec × List UInt8 :=
  if src.length < 2 then (.ok none, codec, src)
  else
    let len := fromLeBytes src 0
    let limit := mtuMax - overheadBytes
    if len > limit then (.error (.payloadTooBig len limit), codec, src)
    else
      let packetSize := len + overheadBytes
      if src.length < packetSize then (.ok none, codec, src)
      else
        let packet := src.take packetSize
        let rest := src.drop packetSize
        let advanced := { codec with counterRx := codec.counterRx + 1 }
        match codec.readCipher.decrypt (packet.drop headerLen) (packet.take 2) codec.counterRx with
        | none => (.error .invalidSignature, advanced, rest)
        | some plaintext => (.ok (some (plaintext.take len)), advanced, rest)

/-- The loop of `decrypt_into_prefix_in_place`, at most `fuel` rounds of it: the codec, the buffer
and the cursors it ends with. -/
def decryptLoop : Nat → CipherCodec → List UInt8 → Nat → Nat →
    Except CipherError Unit × CipherCodec × List UInt8 × Nat × Nat
  | 0, codec, src, read, write => (.ok (), codec, src, read, write)
  | fuel + 1, codec, src, read, write =>
    if src.length - read < headerLen then (.ok (), codec, src, read, write)
    else
      let len := fromLeBytes src read
      let limit := mtuMax - overheadBytes
      if len > limit then (.error (.payloadTooBig len limit), codec, src, read, write)
      else
        let packetSize := overheadBytes + len
        if src.length - read < packetSize then (.ok (), codec, src, read, write)
        else
          let aad := (src.drop read).take 2
          let advanced := { codec with counterRx := codec.counterRx + 1 }
          match codec.readCipher.decrypt
              ((src.take (read + packetSize)).drop (read + headerLen)) aad codec.counterRx with
          | none => (.error .invalidSignature, advanced, src, read, write)
          | some plaintext =>
            let src := overwrite src (read + headerLen) plaintext
            let src := copyWithin src (read + headerLen) (read + headerLen + len) write
            decryptLoop fuel advanced src (read + packetSize) (write + len)

/-- `decrypt_into_prefix_in_place`: the length of the plaintext at the front of the buffer. -/
def decryptIntoPrefixInPlace (codec : CipherCodec) (src : List UInt8)
    (plaintextPrefixLen : Nat) : Except CipherError Nat × CipherCodec × List UInt8 :=
  let start := min plaintextPrefixLen src.length
  match decryptLoop src.length codec src start start with
  | (.error e, codec, src, _, _) => (.error e, codec, src)
  | (.ok (), codec, src, read, write) =>
    if read ≠ write then
      let remainder := src.length - read
      let moved := if remainder > 0 then copyWithin src read src.length write else src
      (.ok write, codec, moved.take (write + remainder))
    else (.ok write, codec, src)

end CipherCodec

end Catplay.Model.Rtsp

/-!
## The frame codec

`carplay/catplay_carplay/src/rtsp_transport/rtsp_frame_codec.rs`, with its default limits.
-/

namespace Catplay.Model.Rtsp

open Catplay.Library.Text

namespace Limits

def headersSize : Nat := 4096
def requestLineSize : Nat := 1024
def headersCount : Nat := 64
def headerNameSize : Nat := 128
def headerValueSize : Nat := 256

/-- 2MB to account for transfers of big OEM icons. -/
def payloadSize : Nat := 2 * 1024 * 1024

end Limits

inductive CodecState
  | headers (headersScannedUntil : Nat)
  | requestBody (method : RtspMethod) (url proto : RtspString) (headers : Headers)
      (contentLength : Nat) (cseq : Option UInt32)
  | responseBody (proto : RtspString) (status : HttpStatus) (headers : Headers)
      (contentLength : Nat) (cseq : Option UInt32)
  deriving DecidableEq, Repr

namespace FrameCodec

/-! ### The end of the headers -/

/-- `b"\r\n\r\n"`. -/
def terminator : List UInt8 := [13, 10, 13, 10]

/-- `windows(4).position(..)`. -/
def findTerminator : List UInt8 → Option Nat
  | [] => none
  | byte :: rest =>
    if (byte :: rest).take 4 = terminator then some 0 else (findTerminator rest).map (· + 1)

def findHttpRequestEnd (src : List UInt8) (searchStart searchLen : Nat) : Option Nat :=
  let end_ := min searchLen src.length
  if end_ ≤ searchStart then none
  else (findTerminator ((src.take end_).drop searchStart)).map (· + 4 + searchStart)

/-! ### The lines -/

/-- `find(pattern)` with the text before the match and the text from the match on. -/
def splitAtPattern (pattern : RtspString) : RtspString → Option (RtspString × RtspString)
  | [] => if pattern = [] then some ([], []) else none
  | c :: rest =>
    if pattern.isPrefixOf (c :: rest) then some ([], c :: rest)
    else (splitAtPattern pattern rest).map fun (before, behind) => (c :: before, behind)

/-- `u8::is_ascii_whitespace`. -/
def isAsciiWhitespace (c : Char) : Bool :=
  c = ' ' || c = '\t' || c = '\n' || c = '\x0c' || c = '\r'

/-- `parse_token`: the token and the rest of the line. -/
def parseToken (line : RtspString) : Option (RtspString × RtspString) :=
  let line := line.dropWhile isAsciiWhitespace
  if line = [] then none
  else some (line.span (!isAsciiWhitespace ·))

def parseRequestLineParts (line : RtspString) : Option (RtspString × RtspString × RtspString) := do
  let (p0, line) ← parseToken line
  let (p1, line) ← parseToken line
  let (p2, _) ← parseToken line
  return (p0, p1, p2)

/-- One header line without its line break. -/
def parseHeader (line : RtspString) : Except RtspError (HttpHeader × RtspString) :=
  match splitAtPattern ": ".toList line with
  | none => .error (.protocolViolation "header missing ': ' separator")
  | some (key, rest) => .ok (HttpHeader.fromStr key, rest.drop 2)

/-- The loop over the header lines. Each line has its line break, so a `fuel` of the length of the
block is never used up. -/
def parseHeaders : Nat → RtspString → Headers → Except RtspError Headers
  | 0, _, headers => .ok headers
  | _ + 1, [], headers => .ok headers
  | fuel + 1, block, headers =>
    match splitAtPattern "\r\n".toList block with
    | none => .error (.protocolViolation "malformed header line")
    | some (line, rest) =>
      if line = [] then .ok headers
      else
        match parseHeader line with
        | .error e => .error e
        | .ok header => parseHeaders fuel (rest.drop 2) (headers ++ [header])

/-- The limits on the headers that were read, and the length of the body. -/
def checkHeaders (headers : Headers) : Except RtspError Nat :=
  if headers.length > Limits.headersCount then .error .headersTooBig
  else if headers.any (fun (key, value) =>
      RtspString.len key.asStr > Limits.headerNameSize ||
        RtspString.len value > Limits.headerValueSize) then
    .error .headersTooBig
  else
    match headers.extractContentLength with
    | none => .error (.protocolViolation "unparsable content length")
    | some contentLength =>
      if contentLength > Limits.payloadSize then
        .error (.payloadTooBig contentLength Limits.payloadSize)
      else .ok contentLength

/-- The state behind the headers. A first line whose first token has a slash is a response. -/
def bodyState (p0 p1 p2 : RtspString) (headers : Headers) (contentLength : Nat) :
    Except RtspError CodecState :=
  let cseq := headers.extractCseq
  if '/' ∈ p0 then
    match parseUnsigned (2 ^ 16 - 1) p1 with
    | none => .error (.protocolViolation "invalid http status code")
    | some code => .ok (.responseBody p0 (.fromCode (.ofNat code)) headers contentLength cseq)
  else
    .ok (.requestBody ((RtspMethod.fromStr p0).getD .unknown) p1 p2 headers contentLength cseq)

/-- From the bytes up to the end of the headers to the next state. -/
def parseHeaderBlock (bytes : List UInt8) : Except RtspError CodecState :=
  match fromUtf8 bytes with
  | none => .error .utf8Error
  | some block =>
    match splitAtPattern "\r\n".toList block with
    | none => .error (.protocolViolation "no request line")
    | some (requestLine, block) =>
      if RtspString.len requestLine > Limits.requestLineSize then .error .headersTooBig
      else
        match parseRequestLineParts requestLine with
        | none => .error (.protocolViolation "request line too short")
        | some (p0, p1, p2) => do
          let headers ← parseHeaders block.length (block.drop 2) []
          let contentLength ← checkHeaders headers
          bodyState p0 p1 p2 headers contentLength

/-! ### Decoding -/

/-- What a call of the codec returns, with the codec and the buffer it leaves. -/
abbrev Answer := Except RtspError (Option RtspFrame) × CodecState × List UInt8

/-- The two body states. -/
def decodeBody (state : CodecState) (src : List UInt8) (visibleLen : Nat) : Answer :=
  match state with
  | .headers scanned => (.ok none, .headers scanned, src)
  | .requestBody method url proto headers contentLength cseq =>
    if visibleLen < contentLength then (.ok none, state, src)
    else
      (.ok (some (.request ⟨method, url, proto, headers, src.take contentLength, cseq⟩)),
        .headers 0, src.drop contentLength)
  | .responseBody proto status headers contentLength cseq =>
    if visibleLen < contentLength then (.ok none, state, src)
    else
      (.ok (some (.response ⟨proto, status, headers, src.take contentLength, cseq⟩)),
        .headers 0, src.drop contentLength)

/-- `decode_with_limit`. An error leaves the default state behind. -/
def decodeWithLimit (state : CodecState) (src : List UInt8) (visibleLen : Nat) : Answer :=
  let visibleLen := min visibleLen src.length
  match state with
  | .headers scanned =>
    if visibleLen = 0 then (.ok none, .headers scanned, src)
    else
      match findHttpRequestEnd src scanned (min visibleLen Limits.headersSize) with
      | none =>
        if visibleLen > Limits.headersSize then (.error .headersTooBig, .headers 0, src)
        else (.ok none, .headers (visibleLen - 4), src)
      | some pos =>
        match parseHeaderBlock (src.take pos) with
        | .error e => (.error e, .headers 0, src.drop pos)
        | .ok next =>
          decodeBody next (src.drop pos) (min (visibleLen - pos) (src.drop pos).length)
  | state => decodeBody state src visibleLen

def decode (state : CodecState) (src : List UInt8) : Answer :=
  decodeWithLimit state src src.length

/-- The bytes of a frame. -/
def encode : RtspFrame → List UInt8
  | .request request => request.serializeWithoutPayload ++ request.payload
  | .response response => response.serializeWithoutPayload ++ response.payload

end FrameCodec

end Catplay.Model.Rtsp

/-!
## The transport codec

`carplay/catplay_carplay/src/rtsp_transport/airplay_transport_codec.rs`: the frame codec over the
plaintext at the front of the buffer, which the cipher codec extends where there is one. The
capacity of the buffer is left out.
-/

namespace Catplay.Model.Rtsp

/-- An error of one of the two codecs. -/
inductive TransportError
  | rtsp (error : RtspError)
  | cipher (error : CipherError)
  deriving DecidableEq, Repr

structure TransportCodec where
  frameCodec : CodecState
  cipherCodec : Option CipherCodec
  plaintextPrefixLen : Nat

namespace TransportCodec

def new : TransportCodec := ⟨.headers 0, none, 0⟩

/-- `encrypt`. The plaintext that is there stays plaintext. -/
def encrypt (codec : TransportCodec) (read write : Cipher) : TransportCodec :=
  { codec with cipherCodec := some ⟨read, write, 0, 0⟩ }

/-- The loop over the frames, at most `fuel` rounds of it. -/
def decodeFrames : Nat → CodecState → List UInt8 → Nat → List RtspFrame →
    Except RtspError (List RtspFrame) × CodecState × List UInt8 × Nat
  | 0, state, src, prefixLen, frames => (.ok frames, state, src, prefixLen)
  | fuel + 1, state, src, prefixLen, frames =>
    match FrameCodec.decodeWithLimit state src prefixLen with
    | (.error e, state, rest) => (.error e, state, rest, prefixLen)
    | (.ok none, state, rest) =>
      (.ok frames, state, rest, prefixLen - (src.length - rest.length))
    | (.ok (some frame), state, rest) =>
      decodeFrames fuel state rest (prefixLen - (src.length - rest.length)) (frames ++ [frame])

/-- What `decode` makes of the plaintext at the front of the buffer. -/
def decodePrefix (codec : TransportCodec) (src : List UInt8) (prefixLen : Nat) :
    Except TransportError (Option (List RtspFrame)) × TransportCodec × List UInt8 :=
  match decodeFrames (src.length + 1) codec.frameCodec src (min prefixLen src.length) [] with
  | (.error e, state, rest, prefixLen) =>
    (.error (.rtsp e), { codec with frameCodec := state, plaintextPrefixLen := prefixLen }, rest)
  | (.ok frames, state, rest, prefixLen) =>
    (.ok (if frames.isEmpty then none else some frames),
      { codec with frameCodec := state, plaintextPrefixLen := prefixLen }, rest)

def decode (codec : TransportCodec) (src : List UInt8) :
    Except TransportError (Option (List RtspFrame)) × TransportCodec × List UInt8 :=
  match codec.cipherCodec with
  | none => decodePrefix codec src src.length
  | some cipher =>
    match cipher.decryptIntoPrefixInPlace src codec.plaintextPrefixLen with
    | (.error e, cipher, src) =>
      (.error (.cipher e), { codec with cipherCodec := some cipher }, src)
    | (.ok prefixLen, cipher, src) =>
      decodePrefix { codec with cipherCodec := some cipher } src prefixLen

/-- `encode` of a batch: what is appended to the buffer. -/
def encode (codec : TransportCodec) (items : List RtspFrame) :
    Except TransportError (TransportCodec × List UInt8) :=
  if items.isEmpty then .ok (codec, [])
  else
    let plaintext := items.flatMap FrameCodec.encode
    match codec.cipherCodec with
    | none => .ok (codec, plaintext)
    | some cipher =>
      match cipher.encodeInPlace plaintext with
      | .error e => .error (.cipher e)
      | .ok (cipher, bytes) => .ok ({ codec with cipherCodec := some cipher }, bytes)

end TransportCodec

end Catplay.Model.Rtsp
