import Catplay.Library.Keystream
import Catplay.Model.Hap.FastChacha

/-!
# The ciphers of a stream

`core/catplay_hap/src/cipher/{shared,cipher_fastchacha,cipher_ring}.rs` and `aes/ctr.rs`. The
functions of the libraries behind `HomeKitCipherRing` and `Aes128Ctr` are parameters. A function
that works in place returns the bytes it leaves. The prefetched keystream is the one that is
computed on the spot, so it is left out.
-/

set_option autoImplicit false

namespace Catplay.Model.Hap

open Catplay.Library

inductive HomeKitCipherError
  | unspecified
  | invalidSignature
  | payloadTooSmall
  | unexpectedDecryptedLength
  deriving DecidableEq, Repr

abbrev HomeKitChaChaNonce := UInt64

/-- The nonce to use, and the one after it. -/
def HomeKitChaChaNonce.advance (self : HomeKitChaChaNonce) :
    HomeKitChaChaNonce × HomeKitChaChaNonce :=
  (self, self + 1)

def nonceToBytes (nonce : HomeKitChaChaNonce) : NonceBytes :=
  (#v[0, 0, 0, 0] : Vector UInt8 4) ++
    (⟨(LittleEndian.toBytes 8 nonce.toNat).toArray, by
      rw [List.size_toArray, LittleEndian.length_toBytes]⟩ : Vector UInt8 8)

def tagSize : Nat := 16

/-- Counter 0 is reserved for Poly1305. -/
def maxPayloadBytes : Nat := (2 ^ 32 - 1) * 64

/-- `CHACHA20_POLY1305` and the CTR mode of AES, as the libraries have them. -/
structure Backend where
  sealInPlaceSeparateTag :
    Key → NonceBytes → (aad data : List UInt8) → Option (List UInt8 × Tag)
  openInPlace : Key → NonceBytes → (aad dataAndTag : List UInt8) → Option (List UInt8)
  /-- The byte that the keystream of a key and an initial vector has at a position. -/
  aesKeystream : (key iv : Vector UInt8 16) → Nat → UInt8

/-! ## `HomeKitCipherFast` -/

structure ProgressiveTagState where
  poly : FastPoly1305
  nonceBytes : NonceBytes
  expectedTotalLen : Nat
  expectedPayloadLen : Nat
  processedCiphertextLen : Nat
  deriving DecidableEq, Repr

structure HomeKitCipherFast where
  key : Key
  preferPolySkip : Bool
  progressiveTagState : Option ProgressiveTagState
  deriving DecidableEq, Repr

def updatePadding (poly : FastPoly1305) (len : Nat) : FastPoly1305 :=
  let rem := len % 16
  if rem ≠ 0 then poly.update (List.replicate (16 - rem) 0) else poly

/-- The bytes from a position of the payload on: the rest of a block that was begun, then whole
blocks. -/
def applyKeystreamAtOffset (key : Key) (nonce : NonceBytes) (streamOffset : Nat)
    (data : List UInt8) : List UInt8 :=
  if data.isEmpty then data
  else
    let counter : UInt32 := 1 + .ofNat (streamOffset / 64)
    let inBlockOffset := streamOffset % 64
    if inBlockOffset ≠ 0 then
      let take := min (64 - inBlockOffset) data.length
      (data.take take).zipWith (· ^^^ ·) ((chachaBlock key nonce counter).drop inBlockOffset) ++
        applyKeystream key nonce (counter + 1) (data.drop take)
    else applyKeystream key nonce counter data

namespace HomeKitCipherFast

def new (key : Key) : HomeKitCipherFast where
  key
  preferPolySkip := false
  progressiveTagState := none

def resetPrefetch (self : HomeKitCipherFast) : HomeKitCipherFast :=
  { self with progressiveTagState := none }

def setPreferPolySkip (self : HomeKitCipherFast) : HomeKitCipherFast :=
  { self with preferPolySkip := true, progressiveTagState := none }

def newPoly1305 (self : HomeKitCipherFast) (nonceBytes : NonceBytes) : FastPoly1305 :=
  .new ((chachaBlock self.key nonceBytes 0).take 32)

/-- A length as it enters the tag. -/
def lengthBytes (len : Nat) : List UInt8 := LittleEndian.toBytes 8 len

def computeTag (self : HomeKitCipherFast) (ciphertext aad : List UInt8)
    (nonceBytes : NonceBytes) : Tag :=
  let poly := self.newPoly1305 nonceBytes
  let poly := poly.update aad
  let poly := updatePadding poly aad.length
  let poly := poly.update ciphertext
  let poly := updatePadding poly ciphertext.length
  let poly := poly.update (lengthBytes aad.length)
  let poly := poly.update (lengthBytes ciphertext.length)
  poly.finalize

/-- The ciphertext and its tag. -/
def encrypt (self : HomeKitCipherFast) (data aad : List UInt8) (nonce : HomeKitChaChaNonce) :
    List UInt8 × Tag :=
  let nonceBytes := nonceToBytes nonce
  let data := applyKeystreamAtOffset self.key nonceBytes 0 data
  (data, self.computeTag data aad nonceBytes)

def initializeProgressiveTagState (self : HomeKitCipherFast) (aad : List UInt8)
    (nonceBytes : NonceBytes) (expectedTotalLen expectedPayloadLen : Nat) : ProgressiveTagState :=
  let poly := self.newPoly1305 nonceBytes
  let poly := poly.update aad
  let poly := updatePadding poly aad.length
  ⟨poly, nonceBytes, expectedTotalLen, expectedPayloadLen, 0⟩

def updateProgressiveTagState (self : HomeKitCipherFast) (aad : List UInt8)
    (nonceBytes : NonceBytes) (expectedTotalLen expectedPayloadLen startPayload : Nat)
    (ciphertextChunk : List UInt8) : Except HomeKitCipherError HomeKitCipherFast :=
  let state :=
    if startPayload = 0 then
      some (self.initializeProgressiveTagState aad nonceBytes expectedTotalLen expectedPayloadLen)
    else self.progressiveTagState
  match state with
  | none => .error .unexpectedDecryptedLength
  | some state =>
    if state.nonceBytes ≠ nonceBytes ∨ state.expectedTotalLen ≠ expectedTotalLen ∨
        state.expectedPayloadLen ≠ expectedPayloadLen ∨
        state.processedCiphertextLen ≠ startPayload then
      .error .unexpectedDecryptedLength
    else
      .ok { self with
        progressiveTagState := some { state with
          poly := state.poly.update ciphertextChunk
          processedCiphertextLen := state.processedCiphertextLen + ciphertextChunk.length } }

/-- The tag that is expected. The state is taken, whatever comes of it. -/
def finalizeProgressiveTagState (self : HomeKitCipherFast) (aad : List UInt8)
    (nonceBytes : NonceBytes) (expectedTotalLen expectedPayloadLen startPayload : Nat) :
    Except HomeKitCipherError Tag :=
  let state :=
    match self.progressiveTagState with
    | some state => some state
    | none =>
      if startPayload ≠ 0 then none
      else
        some (self.initializeProgressiveTagState aad nonceBytes expectedTotalLen expectedPayloadLen)
  match state with
  | none => .error .unexpectedDecryptedLength
  | some state =>
    if state.nonceBytes ≠ nonceBytes ∨ state.expectedTotalLen ≠ expectedTotalLen ∨
        state.expectedPayloadLen ≠ expectedPayloadLen ∨
        state.processedCiphertextLen ≠ expectedPayloadLen then
      .error .unexpectedDecryptedLength
    else
      let poly := updatePadding state.poly expectedPayloadLen
      let poly := poly.update (lengthBytes aad.length)
      let poly := poly.update (lengthBytes expectedPayloadLen)
      .ok poly.finalize

/-- What is left of a call: the cipher, the buffer, and the length of the stretch that it returns or
its error. -/
abbrev Answer (C : Type) := C × List UInt8 × Except HomeKitCipherError Nat

/-- The last part of `decrypt_progressive`: the tag of a final chunk. -/
def verify (self : HomeKitCipherFast) (dataAndTag aad : List UInt8) (nonceBytes : NonceBytes)
    (expectedTotalLen startPayload endPayload : Nat) : Answer HomeKitCipherFast :=
  let payloadLen := dataAndTag.length - tagSize
  match self.finalizeProgressiveTagState aad nonceBytes expectedTotalLen
      (expectedTotalLen - tagSize) startPayload with
  | .error e => ({ self with progressiveTagState := none }, dataAndTag, .error e)
  | .ok expectedTag =>
    let self := { self with progressiveTagState := none }
    if dataAndTag.drop payloadLen ≠ expectedTag.toList then
      (self, dataAndTag, .error .invalidSignature)
    else (self, dataAndTag, .ok (endPayload - startPayload))

/-- `decrypt_progressive` behind its checks. -/
def decryptChunk (self : HomeKitCipherFast) (dataAndTag aad : List UInt8)
    (nonce : HomeKitChaChaNonce) (start end_ expectedTotalLen : Nat) : Answer HomeKitCipherFast :=
  let finalChunk := end_ = expectedTotalLen
  let payloadLen := dataAndTag.length - tagSize
  let startPayload := min start payloadLen
  let endPayload := min end_ payloadLen
  let expectedPayloadLen := expectedTotalLen - tagSize
  let nonceBytes := nonceToBytes nonce
  let chunk := (dataAndTag.take endPayload).drop startPayload
  let updated :=
    if !self.preferPolySkip && startPayload < endPayload then
      self.updateProgressiveTagState aad nonceBytes expectedTotalLen expectedPayloadLen startPayload
        chunk
    else .ok self
  match updated with
  | .error e => ({ self with progressiveTagState := none }, dataAndTag, .error e)
  | .ok self =>
    let dataAndTag :=
      if startPayload < endPayload then
        dataAndTag.take startPayload ++
          applyKeystreamAtOffset self.key nonceBytes startPayload chunk ++
          dataAndTag.drop endPayload
      else dataAndTag
    if finalChunk ∧ ¬self.preferPolySkip then
      self.verify dataAndTag aad nonceBytes expectedTotalLen startPayload endPayload
    else (self, dataAndTag, .ok (endPayload - startPayload))

def decryptProgressive (self : HomeKitCipherFast) (dataAndTag aad : List UInt8)
    (nonce : HomeKitChaChaNonce) (start end_ expectedTotalLen : Nat) : Answer HomeKitCipherFast :=
  let finalChunk := end_ = expectedTotalLen
  if expectedTotalLen < tagSize then (self, dataAndTag, .error .payloadTooSmall)
  else if expectedTotalLen - tagSize > maxPayloadBytes then
    (self, dataAndTag, .error .unexpectedDecryptedLength)
  else if dataAndTag.length < tagSize then
    if ¬finalChunk then (self, dataAndTag, .ok 0) else (self, dataAndTag, .error .payloadTooSmall)
  else if start > end_ ∨ end_ > dataAndTag.length ∨ end_ > expectedTotalLen then
    (self, dataAndTag, .error .unexpectedDecryptedLength)
  else if finalChunk ∧ dataAndTag.length ≠ expectedTotalLen then
    (self, dataAndTag, .error .unexpectedDecryptedLength)
  else self.decryptChunk dataAndTag aad nonce start end_ expectedTotalLen

def decrypt (self : HomeKitCipherFast) (dataAndTag aad : List UInt8)
    (nonce : HomeKitChaChaNonce) : Answer HomeKitCipherFast :=
  let dataAndTagLen := dataAndTag.length
  self.decryptProgressive dataAndTag aad nonce 0 dataAndTagLen dataAndTagLen

end HomeKitCipherFast

/-! ## `HomeKitCipherRing` -/

structure HomeKitCipherRing where
  key : Key
  deriving DecidableEq, Repr

namespace HomeKitCipherRing

open HomeKitCipherFast (Answer)

def new (key : Key) : HomeKitCipherRing where
  key

def resetPrefetch (self : HomeKitCipherRing) : HomeKitCipherRing := self

/-- Best-effort: ring always calculates and verifies Poly1305. -/
def setPreferPolySkip (self : HomeKitCipherRing) : HomeKitCipherRing := self

/-- Opened in place, the tag stays behind the payload. -/
def decrypt (backend : Backend) (self : HomeKitCipherRing) (dataAndTag aad : List UInt8)
    (nonce : HomeKitChaChaNonce) : List UInt8 × Except HomeKitCipherError Nat :=
  if dataAndTag.length < tagSize then (dataAndTag, .error .payloadTooSmall)
  else
    match backend.openInPlace self.key (nonceToBytes nonce) aad dataAndTag with
    | none => (dataAndTag, .error .invalidSignature)
    | some payload =>
      let left := payload ++ dataAndTag.drop payload.length
      if payload.length + tagSize ≠ dataAndTag.length then
        (left, .error .unexpectedDecryptedLength)
      else (left, .ok payload.length)

def decryptProgressive (backend : Backend) (self : HomeKitCipherRing) (dataAndTag aad : List UInt8)
    (nonce : HomeKitChaChaNonce) (start end_ expectedTotalLen : Nat) : Answer HomeKitCipherRing :=
  let finalChunk := end_ = expectedTotalLen
  if dataAndTag.length < tagSize then
    if ¬finalChunk then (self, dataAndTag, .ok 0) else (self, dataAndTag, .error .payloadTooSmall)
  else if start > end_ ∨ end_ > dataAndTag.length ∨ end_ > expectedTotalLen then
    (self, dataAndTag, .error .unexpectedDecryptedLength)
  else if finalChunk ∧ dataAndTag.length ≠ expectedTotalLen then
    (self, dataAndTag, .error .unexpectedDecryptedLength)
  else
    let payloadLen := dataAndTag.length - tagSize
    let startPayload := min start payloadLen
    let endPayload := min end_ payloadLen
    if finalChunk then
      match self.decrypt backend dataAndTag aad nonce with
      | (dataAndTag, .error e) => (self, dataAndTag, .error e)
      | (dataAndTag, .ok _) => (self, dataAndTag, .ok (endPayload - startPayload))
    else (self, dataAndTag, .ok (endPayload - startPayload))

def encrypt (backend : Backend) (self : HomeKitCipherRing) (data aad : List UInt8)
    (nonce : HomeKitChaChaNonce) : Except HomeKitCipherError (List UInt8 × Tag) :=
  match backend.sealInPlaceSeparateTag self.key (nonceToBytes nonce) aad data with
  | none => .error .unspecified
  | some sealed => .ok sealed

end HomeKitCipherRing

/-! ## `HomeKitCipher` -/

/-- Which of the two it is depends on the target that is built for. -/
inductive HomeKitCipher
  | fast (cipher : HomeKitCipherFast)
  | ring (cipher : HomeKitCipherRing)
  deriving DecidableEq, Repr

namespace HomeKitCipher

open HomeKitCipherFast (Answer)

def resetPrefetch : HomeKitCipher → HomeKitCipher
  | .fast cipher => .fast cipher.resetPrefetch
  | .ring cipher => .ring cipher.resetPrefetch

def setPreferPolySkip : HomeKitCipher → HomeKitCipher
  | .fast cipher => .fast cipher.setPreferPolySkip
  | .ring cipher => .ring cipher.setPreferPolySkip

def encrypt (backend : Backend) (data aad : List UInt8) (nonce : HomeKitChaChaNonce) :
    HomeKitCipher → Except HomeKitCipherError (List UInt8 × Tag)
  | .fast cipher => .ok (cipher.encrypt data aad nonce)
  | .ring cipher => cipher.encrypt backend data aad nonce

def decryptProgressive (backend : Backend) (dataAndTag aad : List UInt8)
    (nonce : HomeKitChaChaNonce) (start end_ expectedTotalLen : Nat) :
    HomeKitCipher → Answer HomeKitCipher
  | .fast cipher =>
    let (cipher, left, answer) :=
      cipher.decryptProgressive dataAndTag aad nonce start end_ expectedTotalLen
    (.fast cipher, left, answer)
  | .ring cipher =>
    let (cipher, left, answer) :=
      cipher.decryptProgressive backend dataAndTag aad nonce start end_ expectedTotalLen
    (.ring cipher, left, answer)

end HomeKitCipher

/-! ## `Aes128Ctr` -/

/-- The stream of a key and an initial vector, and how far it has been used. -/
structure Aes128Ctr where
  key : Vector UInt8 16
  iv : Vector UInt8 16
  position : Nat
  deriving DecidableEq, Repr

namespace Aes128Ctr

def new (key iv : Vector UInt8 16) : Aes128Ctr where
  key
  iv
  position := 0

def applyKeystream (backend : Backend) (self : Aes128Ctr) (data : List UInt8) :
    Aes128Ctr × List UInt8 :=
  ({ self with position := self.position + data.length },
    Keystream.xorBytes data
      (Keystream.window (backend.aesKeystream self.key self.iv) self.position data.length))

end Aes128Ctr

end Catplay.Model.Hap
