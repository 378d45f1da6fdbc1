import Catplay.Library.Chunks
import Catplay.Library.Endian

/-!
# NAL units

`carplay/catplay_carplay/src/video`: a unit by itself, and the units of a buffer.
-/

set_option autoImplicit false

/-!
## NAL units (carplay/catplay_carplay/src/video/nal.rs)

`remove_emulation_prevention_bytes`, with the two bytes before in `prev1` and `prev2`.
-/

namespace Catplay.Model.Video.Nal

structure Remover where
  out : List UInt8
  prev1 : UInt8
  prev2 : UInt8
  deriving DecidableEq, Repr

/-- One round of the loop. A byte that is left out does not change the bytes before. -/
def removeStep (s : Remover) (b : UInt8) : Remover :=
  if s.prev1 = 0 ∧ s.prev2 = 0 ∧ b = 0x03 then s
  else ⟨s.out ++ [b], b, s.prev1⟩

def removeEmulationPreventionBytes (nal : List UInt8) : List UInt8 :=
  (nal.foldl removeStep ⟨[], 0, 0⟩).out

end Catplay.Model.Video.Nal

/-!
## NAL units in AnnexB and in length-prefixed buffers

`carplay/catplay_carplay/src/video/{nal,annexb_iter,annexb_builder,annexb_converter}.rs`. A buffer is
the list of its bytes, and lengths are of 64 bits, so that sums of positions do not overflow. `none`
stands for a panic: a slice that is out of range.
-/

namespace Catplay.Model.Video

open Catplay.Library

structure NalChunk where
  prefixStart : Nat
  prefixLen : Nat
  dataSize : Nat
  deriving DecidableEq, Repr

inductive NalError
  | ending
  | underrun
  | param
  deriving DecidableEq, Repr

/-- A result, or a panic. -/
abbrev Nal := ExceptT NalError Option

def startCode : List UInt8 := [0, 0, 0, 1]

/-- `src[start..stop]`. -/
def slice (src : List UInt8) (start stop : Nat) : Nal (List UInt8) :=
  if start ≤ stop ∧ stop ≤ src.length then pure ((src.drop start).take (stop - start))
  else ExceptT.mk none

/-- `src[start..stop].copy_from_slice(bytes)`. -/
def copyFromSlice (src : List UInt8) (start stop : Nat) (bytes : List UInt8) :
    Nal (List UInt8) :=
  if start ≤ stop ∧ stop ≤ src.length ∧ bytes.length = stop - start then
    pure (Buffer.overwrite src start bytes)
  else ExceptT.mk none

/-! ### The iterators -/

inductive AnnexBCacheVerifyKind
  | none
  | annexB
  | lengthPrefixed (nalSizeLen : Nat)
  deriving DecidableEq, Repr

inductive AnnexBIter
  | cached (src : List UInt8) (chunks : List NalChunk) (prevEnd : Nat)
    (cachedKind : AnnexBCacheVerifyKind)
  | annexB (src : List UInt8) (pos : Nat) (done : Bool)
  | lengthPrefixed (src : List UInt8) (nalSizeLen : Nat) (offset : Nat)
  deriving DecidableEq, Repr

def chunkPayloadBounds (src : List UInt8) (chunk : NalChunk) : Except NalError (Nat × Nat) :=
  if chunk.prefixLen = 0 then .error .param
  else
    let payloadStart := chunk.prefixStart + chunk.prefixLen
    let payloadEnd := payloadStart + chunk.dataSize
    if src.length < payloadEnd then .error .param else .ok (payloadStart, payloadEnd)

def readLengthPrefixedNalLen (src : List UInt8) (offset nalSizeLen : Nat) :
    Except NalError (Nat × Nat) :=
  if src.length < offset + nalSizeLen then .error .underrun
  else if ¬(1 ≤ nalSizeLen ∧ nalSizeLen ≤ 4) then .error .param
  else
    let nalLen := BigEndian.ofBytes ((src.drop offset).take nalSizeLen)
    let payloadStart := offset + nalSizeLen
    if src.length < payloadStart + nalLen then .error .underrun else .ok (nalLen, payloadStart)

/-- The loop goes over the positions of the last byte. -/
def findNextStartCode (buf : List UInt8) (start : Nat) : Nat :=
  if buf.length < start + 4 then buf.length
  else
    match (List.range' (start + 3) (buf.length - (start + 3))).find? fun oneIdx =>
      (buf.drop (oneIdx - 3)).take 4 = startCode with
    | some oneIdx => oneIdx - 3
    | none => buf.length

namespace AnnexBIter

/-- What a chunk of the cache is checked for. -/
def verify (src : List UInt8) (chunk : NalChunk) : AnnexBCacheVerifyKind → Bool
  | .none => true
  | .annexB => chunk.prefixLen = 4 ∧ startCode <+: src.drop chunk.prefixStart
  | .lengthPrefixed nalSizeLen =>
    decide (chunk.prefixLen = nalSizeLen) &&
      match readLengthPrefixedNalLen src chunk.prefixStart nalSizeLen with
      | .ok (nalLen, _) => decide (nalLen = chunk.dataSize)
      | .error _ => false

def next : AnnexBIter → Option (Except NalError NalChunk × AnnexBIter)
  | .cached _ [] _ _ => none
  | .cached src (chunk :: chunks) prevEnd cachedKind =>
    match chunkPayloadBounds src chunk with
    | .error _ => some (.error .param, .cached src chunks prevEnd cachedKind)
    | .ok (_, payloadEnd) =>
      if chunk.prefixStart < prevEnd ∨ ¬verify src chunk cachedKind then
        some (.error .param, .cached src chunks prevEnd cachedKind)
      else some (.ok chunk, .cached src chunks payloadEnd cachedKind)
  | .annexB src pos done =>
    if done then none
    else if src.length < pos + 4 then
      if pos = src.length then none else some (.error .param, .annexB src pos true)
    else if ¬startCode <+: src.drop pos then some (.error .param, .annexB src pos true)
    else
      let next := findNextStartCode src (pos + 4)
      if next < pos + 4 then some (.error .param, .annexB src pos true)
      else
        some (.ok ⟨pos, 4, next - (pos + 4)⟩, .annexB src next (next = src.length))
  | .lengthPrefixed src nalSizeLen offset =>
    if src.length ≤ offset then none
    else
      match readLengthPrefixedNalLen src offset nalSizeLen with
      | .ok (nalLen, payloadStart) =>
        some (.ok ⟨offset, nalSizeLen, nalLen⟩,
          .lengthPrefixed src nalSizeLen (payloadStart + nalLen))
      | .error e => some (.error e, .lengthPrefixed src nalSizeLen src.length)

/-- A bound on how many items there are. -/
def remaining : AnnexBIter → Nat
  | .cached _ chunks _ _ => chunks.length
  | .annexB src pos done => if done then 0 else src.length + 1 - pos
  | .lengthPrefixed src _ offset => src.length - offset

/-- `collect`, which ends at the first error; `none` where `fuel` items are not all. -/
def collectFuel : Nat → AnnexBIter → Option (Except NalError (List NalChunk))
  | 0, _ => none
  | fuel + 1, iter =>
    match iter.next with
    | none => some (.ok [])
    | some (.error e, _) => some (.error e)
    | some (.ok chunk, iter) => (collectFuel fuel iter).map (·.map (chunk :: ·))

def collect (iter : AnnexBIter) : Nal (List NalChunk) :=
  ExceptT.mk (collectFuel (iter.remaining + 1) iter)

end AnnexBIter

/-! ### The builder -/

structure AnnexBBuilder where
  out : List UInt8
  chunks : List NalChunk
  pending : Option NalChunk
  deriving DecidableEq, Repr

namespace AnnexBBuilder

def new : AnnexBBuilder := ⟨[], [], none⟩

def beginChunk (self : AnnexBBuilder) (prefixLen dataSize : Nat) : Except NalError AnnexBBuilder :=
  if self.pending.isSome ∨ prefixLen = 0 then .error .param
  else .ok { self with pending := some ⟨self.out.length, prefixLen, dataSize⟩ }

def pushStartCode (self : AnnexBBuilder) (dataSize : Nat) : Except NalError AnnexBBuilder := do
  let self ← self.beginChunk 4 dataSize
  .ok { self with out := self.out ++ startCode }

/-- Only the prefix of four bytes takes a length that is too large, and cuts it off. -/
def pushLengthPrefix (self : AnnexBBuilder) (nalSizeLen dataSize : Nat) :
    Except NalError AnnexBBuilder := do
  let self ← self.beginChunk nalSizeLen dataSize
  if nalSizeLen = 4 ∨ 1 ≤ nalSizeLen ∧ nalSizeLen ≤ 3 ∧ dataSize < 256 ^ nalSizeLen then
    .ok { self with out := self.out ++ BigEndian.toBytes nalSizeLen dataSize }
  else .error .param

def pushData (self : AnnexBBuilder) (data : List UInt8) : Except NalError AnnexBBuilder :=
  match self.pending with
  | none => .error .param
  | some chunk =>
    if data.length ≠ chunk.dataSize then .error .param
    else .ok ⟨self.out ++ data, self.chunks ++ [chunk], none⟩

def finish (self : AnnexBBuilder) : Except NalError (List UInt8 × List NalChunk) :=
  if self.pending.isSome then .error .param else .ok (self.out, self.chunks)

/-- One turn of the fast path: a prefix of four bytes is written over. -/
def rewrite (toLengthPrefixed : Bool) (state : List UInt8 × List NalChunk) (chunk : NalChunk) :
    Nal (List UInt8 × List NalChunk) := do
  let code := if toLengthPrefixed then BigEndian.toBytes 4 chunk.dataSize else startCode
  let src ← copyFromSlice state.1 chunk.prefixStart (chunk.prefixStart + 4) code
  pure (src, state.2 ++ [⟨chunk.prefixStart, 4, chunk.dataSize⟩])

/-- One turn of the slow path. -/
def append (src : List UInt8) (toLengthPrefixed : Bool) (nalSizeLen : Nat)
    (builder : AnnexBBuilder) (chunk : NalChunk) : Nal AnnexBBuilder := do
  let payloadStart := chunk.prefixStart + chunk.prefixLen
  let builder ←
    if toLengthPrefixed then liftExcept (builder.pushLengthPrefix nalSizeLen chunk.dataSize)
    else liftExcept (builder.pushStartCode chunk.dataSize)
  let data ← slice src payloadStart (payloadStart + chunk.dataSize)
  liftExcept (builder.pushData data)
where
  liftExcept (result : Except NalError AnnexBBuilder) : Nal AnnexBBuilder := ExceptT.mk (some result)

def rebuildFromChunks (src : List UInt8) (chunks : List NalChunk) (toLengthPrefixed : Bool)
    (nalSizeLen : Nat) : Nal (List UInt8 × List NalChunk) :=
  if src.isEmpty ∨ chunks.isEmpty then pure ([], [])
  else if nalSizeLen = 4 ∧ chunks.all fun chunk => chunk.prefixLen = 4 then
    chunks.foldlM (rewrite toLengthPrefixed) (src, [])
  else do
    let builder ← chunks.foldlM (append src toLengthPrefixed nalSizeLen) new
    ExceptT.mk (some builder.finish)

end AnnexBBuilder

/-! ### The converter -/

structure AnnexBConverter where
  nalSizeLen : Nat
  offsetsCache : List NalChunk
  deriving DecidableEq, Repr

namespace AnnexBConverter

def withCache (nalSizeLen : Nat) (cache : List NalChunk) : AnnexBConverter := ⟨nalSizeLen, cache⟩

def annexBChunksIter (self : AnnexBConverter) (src : List UInt8) : AnnexBIter :=
  if self.offsetsCache.isEmpty then .annexB src 0 false
  else .cached src self.offsetsCache 0 .annexB

def lengthPrefixedChunksIter (self : AnnexBConverter) (src : List UInt8) : AnnexBIter :=
  if self.offsetsCache.isEmpty then .lengthPrefixed src self.nalSizeLen 0
  else .cached src self.offsetsCache 0 (.lengthPrefixed self.nalSizeLen)

def convert (self : AnnexBConverter) (src : List UInt8) (toLengthPrefixed : Bool) :
    Nal (List UInt8 × AnnexBConverter) := do
  if ¬(1 ≤ self.nalSizeLen ∧ self.nalSizeLen < 5) then throw .param
  let iter := if toLengthPrefixed then self.annexBChunksIter src else self.lengthPrefixedChunksIter src
  let chunks ← iter.collect
  let (out, outChunks) ←
    AnnexBBuilder.rebuildFromChunks src chunks toLengthPrefixed self.nalSizeLen
  pure (out, { self with offsetsCache := outChunks })

def scanOnly (src : List UInt8) (nalSizeLen : Nat) (fromLengthPrefixed : Bool) :
    Nal (List NalChunk) := do
  if ¬(1 ≤ nalSizeLen ∧ nalSizeLen < 5) then throw .param
  if fromLengthPrefixed then (AnnexBIter.lengthPrefixed src nalSizeLen 0).collect
  else (AnnexBIter.annexB src 0 false).collect

end AnnexBConverter

end Catplay.Model.Video

/-!
## The conversion in the buffer of its caller

`AnnexBBuilder::rebuild_from_chunks` and `AnnexBConverter::convert` of
`carplay/catplay_carplay/src/video/{annexb_builder,annexb_converter}.rs` with the buffer that they
are lent: what it holds afterwards, also where the conversion fails.
-/

namespace Catplay.Model.Video

open Catplay.Library

/-- A computation on the buffer `src`, which keeps what was written when it fails. -/
abbrev InPlace := ExceptT NalError (StateT (List UInt8) Option)

/-- A computation that does not write. -/
def readOnly {α : Type} (result : Nal α) : InPlace α :=
  ExceptT.mk fun src => result.run.map (·, src)

namespace AnnexBBuilder

def rewriteIn (toLengthPrefixed : Bool) (outChunks : List NalChunk) (chunk : NalChunk) :
    InPlace (List NalChunk) := do
  let code := if toLengthPrefixed then BigEndian.toBytes 4 chunk.dataSize else startCode
  let src ← get
  let src ← readOnly (copyFromSlice src chunk.prefixStart (chunk.prefixStart + 4) code)
  set src
  pure (outChunks ++ [⟨chunk.prefixStart, 4, chunk.dataSize⟩])

/-- The fast path hands the buffer out and leaves an empty one (`src.split()`). -/
def rebuildFromChunksIn (chunks : List NalChunk) (toLengthPrefixed : Bool) (nalSizeLen : Nat) :
    InPlace (List UInt8 × List NalChunk) := do
  let src ← get
  if src.isEmpty ∨ chunks.isEmpty then pure ([], [])
  else if nalSizeLen = 4 ∧ chunks.all fun chunk => chunk.prefixLen = 4 then do
    let outChunks ← chunks.foldlM (rewriteIn toLengthPrefixed) []
    let out ← get
    set ([] : List UInt8)
    pure (out, outChunks)
  else do
    let builder ← readOnly (chunks.foldlM (append src toLengthPrefixed nalSizeLen) new)
    readOnly (ExceptT.mk (some builder.finish))

end AnnexBBuilder

namespace AnnexBConverter

def convertIn (self : AnnexBConverter) (toLengthPrefixed : Bool) :
    InPlace (List UInt8 × AnnexBConverter) := do
  if ¬(1 ≤ self.nalSizeLen ∧ self.nalSizeLen < 5) then throw .param
  let src ← get
  let iter := if toLengthPrefixed then self.annexBChunksIter src else self.lengthPrefixedChunksIter src
  let chunks ← readOnly iter.collect
  let (out, outChunks) ←
    AnnexBBuilder.rebuildFromChunksIn chunks toLengthPrefixed self.nalSizeLen
  pure (out, { self with offsetsCache := outChunks })

end AnnexBConverter

end Catplay.Model.Video
