import Catplay.Library.Checked
import Catplay.Library.Effects
import Catplay.Library.Keystream
import Mathlib.Data.UInt

/-!
# AES-CTR

`core/catplay_hap/src/aes/{ctr_kernel,ctr_prefetch}.rs`: the engine in the kernel, and the provider
that opens engines for the prefetch.
-/

set_option autoImplicit false

/-!
## AES-CTR through AF_ALG

`core/catplay_hap/src/aes/ctr_kernel.rs`. An engine holds the operation socket `op_fd` of the
kernel's `ctr(aes)`. Every request to it carries its own counter block: the kernel takes some of
the bytes, encrypts those from that counter on, and the engine reads them back. A counter block is
the number its 16 bytes are read as, and `aes key counter j` is byte `j` of its encryption.

Lengths are `usize`, kept as naturals. `byte_offset` stays within the slice, so its checked
additions are plain. `pending_keystream` has the first `pending_len` bytes of the array; the others
are never read.
-/

namespace Catplay.Model.Aes

open Catplay.Library.Checked (Stop)
open Catplay.Library.Keystream
open Catplay.Library.CounterMode

variable {K : Type}

def aesBlock : Nat := 16

def afalgZeroCopyPages : Nat := 16

/-- Of the errors, those met once the sockets are open and the kernel answers. -/
inductive AfAlgError
  | invalidInput
  | shortSend
  deriving DecidableEq, Repr

/-- What the kernel does beyond encrypting: whether a socket is put in keystream-only mode (the
preference is set and the probe is answered), and how many bytes it takes of a request. A socket's
requests are counted. -/
structure Kernel where
  pageSize : Nat
  keystreamOnly : Nat → Bool
  /-- Bytes taken of a request of `crypt_in_place`. -/
  accepted : Nat → Nat → Nat
  /-- Bytes taken of a request of `crypt_slices`. -/
  acceptedSlices : Nat → Nat → Nat

/-- `key` is the key set on `_tfm_fd`, `requests` counts the inputs sent on `op_fd`. -/
structure AfAlgCtrAes128 (K : Type) where
  key : K
  opFd : Nat
  requests : Nat
  spliceChunk : Nat
  initialIv : BitVec 128
  streamPos : Nat
  pendingKeystream : List UInt8
  keystreamOnly : Bool
  deriving DecidableEq, Repr

/-- `&mut self` and a `Result`. -/
abbrev Action (K α : Type) := EStateM (Stop AfAlgError) (AfAlgCtrAes128 K) α

def zeros (len : Nat) : List UInt8 := List.replicate len 0

def ivAddBe128 (iv : BitVec 128) (blockIndex : Nat) : BitVec 128 :=
  iv + BitVec.ofNat 128 blockIndex

def afalgZeroCopyChunkLen (pageSize : Nat) : Nat :=
  let pageSize := if 0 < pageSize then pageSize else 4096
  let len := pageSize * (afalgZeroCopyPages - 1)
  max (len / aesBlock * aesBlock) aesBlock

/-- What the kernel makes of accepted input. -/
def encrypt (aes : K → BitVec 128 → Nat → UInt8) (key : K) (iv : BitVec 128)
    (input : List UInt8) : List UInt8 :=
  xorBytes input (window (counterStream (aes key) aesBlock iv) 0 input.length)

namespace AfAlgCtrAes128

variable (aes : K → BitVec 128 → Nat → UInt8) (kernel : Kernel)

/-- In keystream-only mode the probe has fetched the first block. -/
def tryNew (opFd : Nat) (key : K) (iv : BitVec 128) : AfAlgCtrAes128 K where
  key
  opFd
  requests := 0
  spliceChunk := afalgZeroCopyChunkLen kernel.pageSize
  initialIv := iv
  streamPos := 0
  pendingKeystream := if kernel.keystreamOnly opFd then encrypt aes key iv (zeros aesBlock) else []
  keystreamOnly := kernel.keystreamOnly opFd

/-- A request of `len` bytes of which the kernel takes `sent`. -/
def request (sent : AfAlgCtrAes128 K → Nat) : Action K Nat := do
  let self ← get
  set { self with requests := self.requests + 1 }
  pure (sent self)

/-- By `splice` or by `sendmsg`, at most `splice_chunk` bytes are offered. -/
def sendOnceWaitWritable (data : List UInt8) : Action K Nat := do
  let sent ← request fun self =>
    min (kernel.accepted self.opFd self.requests) (min data.length self.spliceChunk)
  if sent = 0 then throw (.error .shortSend) else pure sent

def cryptSlices (iv : BitVec 128) (inputs : List (List UInt8)) : Action K (List UInt8) := do
  let input := inputs.flatten
  if input = [] then pure []
  else
    let sent ← request fun self =>
      min (kernel.acceptedSlices self.opFd self.requests) input.length
    if sent = input.length then pure (encrypt aes (← get).key iv input)
    else throw (.error .shortSend)

/-- The loop of `crypt_in_place`, which gives the bytes that `remaining` turns into. Each round
takes at least one byte; `fuel` bounds the rounds. -/
def cryptLoop (iv : BitVec 128) : Nat → Nat → List UInt8 → Action K (List UInt8)
  | _, _, [] => pure []
  | 0, _, _ :: _ => throw .panic
  | fuel + 1, byteOffset, byte :: bytes => do
    let remaining := byte :: bytes
    let chunkIv := ivAddBe128 iv (byteOffset / aesBlock)
    let sent ← sendOnceWaitWritable kernel remaining
    let sentData := encrypt aes (← get).key chunkIv (remaining.take sent)
    let rest := remaining.drop sent
    let byteOffset := byteOffset + sent
    if sent < remaining.length ∧ sent % aesBlock ≠ 0 then
      let partialBlockIv := ivAddBe128 iv (byteOffset / aesBlock)
      let withinBlock := sent % aesBlock
      let partialLen := min (aesBlock - withinBlock) rest.length
      let keystream ← cryptSlices aes kernel partialBlockIv [zeros aesBlock]
      let repaired := xorBytes (rest.take partialLen) ((keystream.drop withinBlock).take partialLen)
      let later ← cryptLoop iv fuel (byteOffset + partialLen) (rest.drop partialLen)
      pure (sentData ++ (repaired ++ later))
    else
      let later ← cryptLoop iv fuel byteOffset rest
      pure (sentData ++ later)

def cryptInPlace (iv : BitVec 128) (data : List UInt8) : Action K (List UInt8) :=
  cryptLoop aes kernel iv data.length 0 data

/-- The kernel writes `len` bytes of keystream. -/
def requestKeystream (iv : BitVec 128) (len : Nat) : Action K (List UInt8) := do
  if len = 0 ∨ len % aesBlock ≠ 0 then throw (.error .invalidInput)
  else pure (encrypt aes (← get).key iv (zeros len))

/-! ### The two calls -/

/-- `stream_pos.checked_add(len).expect(..)`. -/
def advance (len : Nat) : Action K Unit := do
  let self ← get
  if self.streamPos + len < 2 ^ 128 then set { self with streamPos := self.streamPos + len }
  else throw .panic

/-- Take what is there of `len` bytes from the pending keystream. -/
def takePending (len : Nat) : Action K (List UInt8) := do
  let pending := (← get).pendingKeystream
  let take := min pending.length len
  advance take
  modify fun self => { self with pendingKeystream := pending.drop take }
  pure (pending.take take)

/-- The counter block at the position of the stream. -/
def counterBlock (self : AfAlgCtrAes128 K) : BitVec 128 :=
  ivAddBe128 self.initialIv (self.streamPos / aesBlock)

/-- The whole blocks of a call, as `crypt` has them. -/
def wholeBlocks (crypt : BitVec 128 → Action K (List UInt8)) (fullLen : Nat) :
    Action K (List UInt8) := do
  if 0 < fullLen then
    let output ← crypt (← get).counterBlock
    advance fullLen
    pure output
  else pure []

/-- The last bytes of a call, from a block of which the rest is kept. -/
def lastBytes (crypt : BitVec 128 → Action K (List UInt8)) (tailLen : Nat) :
    Action K (List UInt8) := do
  if 0 < tailLen then
    let block ← crypt (← get).counterBlock
    modify fun self => { self with pendingKeystream := block.drop tailLen }
    advance tailLen
    pure (block.take tailLen)
  else pure []

def tryApplyKeystream (data : List UInt8) : Action K (List UInt8) := do
  if data = [] then pure []
  else
    let head ← takePending data.length
    if (← get).pendingKeystream ≠ [] then pure (xorBytes data head)
    else
      let remaining := data.drop head.length
      let fullLen := remaining.length / aesBlock * aesBlock
      let tailLen := remaining.length - fullLen
      let blocks ← wholeBlocks (fun iv => cryptInPlace aes kernel iv (remaining.take fullLen)) fullLen
      let tail ← lastBytes
        (fun iv => cryptSlices aes kernel iv [remaining.drop fullLen, zeros (aesBlock - tailLen)])
        tailLen
      pure (xorBytes (data.take head.length) head ++ (blocks ++ tail))

/-- Raw keystream, asked for as such or as the encryption of zeroes. -/
def keystreamBlocks (len : Nat) (iv : BitVec 128) : Action K (List UInt8) := do
  if (← get).keystreamOnly then requestKeystream aes iv len
  else cryptInPlace aes kernel iv (zeros len)

/-- `len` bytes, whatever the output held. -/
def tryGenerateKeystream (len : Nat) : Action K (List UInt8) := do
  if len = 0 then pure []
  else
    let head ← takePending len
    if (← get).pendingKeystream ≠ [] then pure head
    else
      let remaining := len - head.length
      let fullLen := remaining / aesBlock * aesBlock
      let tailLen := remaining - fullLen
      let blocks ← wholeBlocks (keystreamBlocks aes kernel fullLen) fullLen
      let tail ← lastBytes (keystreamBlocks aes kernel aesBlock) tailLen
      pure (head ++ (blocks ++ tail))

end AfAlgCtrAes128

end Catplay.Model.Aes

/-!
## The prefetch provider of AES-CTR

`core/catplay_hap/src/aes/ctr_prefetch.rs`. A provider answers requests at any byte position. It
keeps one engine, which goes on where the last request ended; a request anywhere else opens a new
engine, with the counter of the block that has the position.
-/

namespace Catplay.Model.Aes

open Catplay.Library.Checked (Stop)

variable {K ε B : Type}

/-- A sequential AES-128-CTR implementation usable by the prefetch layer. -/
structure Aes128CtrEngine (K ε B : Type) where
  new : K → BitVec 128 → B
  /-- Raw keystream, regardless of what the output held. -/
  generateKeystream : Nat → EStateM (Stop ε) B (List UInt8)
  applyKeystream : List UInt8 → EStateM (Stop ε) B (List UInt8)

/-- The kernel's engine, on the socket that `accept` gives. -/
def kernelEngine (aes : K → BitVec 128 → Nat → UInt8) (kernel : Kernel) (opFd : Nat) :
    Aes128CtrEngine K AfAlgError (AfAlgCtrAes128 K) where
  new := AfAlgCtrAes128.tryNew aes kernel opFd
  generateKeystream := AfAlgCtrAes128.tryGenerateKeystream aes kernel
  applyKeystream := AfAlgCtrAes128.tryApplyKeystream aes kernel

def positionedBackend (engine : Aes128CtrEngine K ε B) (key : K) (iv : BitVec 128)
    (position : Nat) : Except (Stop ε) B :=
  let backend := engine.new key (iv + BitVec.ofNat 128 (position / 16))
  let skip := position % 16
  if skip ≠ 0 then
    match engine.applyKeystream (zeros skip) backend with
    | .ok _ backend => .ok backend
    | .error e _ => .error e
  else .ok backend

structure AesProvider (K B : Type) where
  key : K
  iv : BitVec 128
  backend : Option B
  nextOffset : Nat
  deriving DecidableEq, Repr

namespace AesProvider

def new (key : K) (iv : BitVec 128) : AesProvider K B where
  key
  iv
  backend := none
  nextOffset := 0

variable (engine : Aes128CtrEngine K ε B)

/-- Put a backend in place that stands at `offset`. -/
def backendAt (offset : Nat) : EStateM (Stop ε) (AesProvider K B) Unit := do
  let self ← get
  if self.backend.isNone ∨ self.nextOffset ≠ offset then
    match positionedBackend engine self.key self.iv offset with
    | .ok backend => set { self with backend := some backend }
    | .error e => throw e
  else pure ()

/-- A call to the backend. -/
def onBackend (call : EStateM (Stop ε) B (List UInt8)) :
    EStateM (Stop ε) (AesProvider K B) (List UInt8) := fun self =>
  match self.backend with
  | none => .error .panic self
  | some backend =>
    match call backend with
    | .ok output backend => .ok output { self with backend := some backend }
    | .error e backend => .error e { self with backend := some backend }

/-- `self.next_offset = offset + len`. -/
def setNextOffset (next : Nat) : EStateM (Stop ε) (AesProvider K B) Unit := do
  if next < 2 ^ 128 then modify fun self => { self with nextOffset := next }
  else throw .panic

def generateKeystream (offset len : Nat) : EStateM (Stop ε) (AesProvider K B) (List UInt8) := do
  backendAt engine offset
  let output ← onBackend (engine.generateKeystream len)
  setNextOffset (offset + len)
  pure output

def applyKeystream (offset : Nat) (data : List UInt8) :
    EStateM (Stop ε) (AesProvider K B) (List UInt8) := do
  backendAt engine offset
  let output ← onBackend (engine.applyKeystream data)
  setNextOffset (offset + data.length)
  pure output

end AesProvider

end Catplay.Model.Aes
