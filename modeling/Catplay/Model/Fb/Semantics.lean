import Catplay.Model.Fb.NalRewriter

/-!
# Parsing what the rewriter gives (c2a/catplay_fb/src/carplay_helpers/\*_semantics.rs)

`SpsSemantics`, `VuiSemantics` and `IdrSemantics` with `semantics_utils.rs`: the parsers of the
syntax that CarPlay expects.
-/

set_option autoImplicit false

namespace Catplay.Model.Fb

open Catplay.Library.Checked
open BitReader

def semanticsRbsp (nal : List UInt8) (expectedType : UInt8) : RewriteResult (List UInt8) := do
  let prefixLen ← annexbPrefixLen nal
  let header ← orFail nal[prefixLen]? (.x264BitstreamRewrite "missing semantic NAL header")
  if header &&& 0x1f ≠ expectedType then rewriteError "unexpected semantic NAL type"
  else
    let payload ← sliceFrom nal (prefixLen + 1)
    removeEmulationPrevention payload

/-- `trailing_zeros` of a byte. -/
def trailingZeros (b : UInt8) : Nat := ((List.range 8).find? fun i => b.toNat.testBit i).getD 8

def rbspDataBitLen (data : List UInt8) : RewriteResult Nat := do
  let (lastByte, lastIndex) ← orFail (data.zipIdx.reverse.find? fun item => item.1 ≠ 0)
    (.x264BitstreamRewrite "RBSP has no stop bit")
  .ok (lastIndex * 8 + 7 - trailingZeros lastByte)

structure VideoSignalSemantics where
  videoFormat : Nat
  fullRange : UInt8
  colourDescription : Option (Nat × Nat × Nat)
  deriving DecidableEq, Repr

structure TimingSemantics where
  numUnitsInTick : Nat
  timeScale : Nat
  fixedFrameRate : UInt8
  deriving DecidableEq, Repr

structure BitstreamRestrictionSemantics where
  motionVectorsOverPicBoundaries : UInt8
  maxBytesPerPicDenom : Nat
  maxBitsPerMbDenom : Nat
  log2MaxMvLengthHorizontal : Nat
  log2MaxMvLengthVertical : Nat
  numReorderFrames : Nat
  maxDecFrameBuffering : Nat
  deriving DecidableEq, Repr

structure VuiSemantics where
  aspectRatio : Option (Nat × Option (Nat × Nat))
  overscanAppropriate : Option UInt8
  videoSignal : Option VideoSignalSemantics
  chromaLoc : Option (Nat × Nat)
  timing : Option TimingSemantics
  picStructPresent : UInt8
  bitstreamRestriction : Option BitstreamRestrictionSemantics
  deriving DecidableEq, Repr

namespace VuiSemantics

/-- `if reader.bit()? != 0 { Some(..) } else { None }`. -/
def optional {α : Type} (x : Read α) : Read (Option α) := do
  let present ← bit
  if present ≠ 0 then
    let a ← x
    pure (some a)
  else pure none

def parseAspectRatio : Read (Nat × Option (Nat × Nat)) := do
  let idc ← bits 8
  if idc = 255 then
    let width ← bits 16
    let height ← bits 16
    pure (idc, some (width, height))
  else pure (idc, none)

def parseColourDescription : Read (Nat × Nat × Nat) := do
  let primaries ← bits 8
  let transfer ← bits 8
  let coefficients ← bits 8
  pure (primaries, transfer, coefficients)

def parseVideoSignal : Read VideoSignalSemantics := do
  let videoFormat ← bits 3
  let fullRange ← bit
  let colourDescription ← optional parseColourDescription
  pure ⟨videoFormat, fullRange, colourDescription⟩

def parseChromaLoc (crate : ExpGolomb) : Read (Nat × Nat) := do
  let top ← ue crate
  let bottom ← ue crate
  pure (top, bottom)

def parseTiming : Read TimingSemantics := do
  let numUnitsInTick ← bits 32
  let timeScale ← bits 32
  let fixedFrameRate ← bit
  pure ⟨numUnitsInTick, timeScale, fixedFrameRate⟩

def parseBitstreamRestriction (crate : ExpGolomb) : Read BitstreamRestrictionSemantics := do
  let motionVectorsOverPicBoundaries ← bit
  let maxBytesPerPicDenom ← ue crate
  let maxBitsPerMbDenom ← ue crate
  let log2MaxMvLengthHorizontal ← ue crate
  let log2MaxMvLengthVertical ← ue crate
  let numReorderFrames ← ue crate
  let maxDecFrameBuffering ← ue crate
  pure ⟨motionVectorsOverPicBoundaries, maxBytesPerPicDenom, maxBitsPerMbDenom,
    log2MaxMvLengthHorizontal, log2MaxMvLengthVertical, numReorderFrames, maxDecFrameBuffering⟩

def parse (crate : ExpGolomb) : Read VuiSemantics := do
  let aspectRatio ← optional parseAspectRatio
  let overscanAppropriate ← optional bit
  let videoSignal ← optional parseVideoSignal
  let chromaLoc ← optional (parseChromaLoc crate)
  let timing ← optional parseTiming
  let nalHrdPresent ← bit
  let vclHrdPresent ← bit
  failIf (nalHrdPresent ≠ 0 ∨ vclHrdPresent ≠ 0)
    "semantic SPS parser does not support HRD parameters"
  let picStructPresent ← bit
  let bitstreamRestriction ← optional (parseBitstreamRestriction crate)
  pure ⟨aspectRatio, overscanAppropriate, videoSignal, chromaLoc, timing, picStructPresent,
    bitstreamRestriction⟩

end VuiSemantics

structure SpsSemantics where
  profileIdc : Nat
  constraints : Nat
  levelIdc : Nat
  spsId : Nat
  chromaFormatIdc : Nat
  bitDepthLumaMinus8 : Nat
  bitDepthChromaMinus8 : Nat
  log2MaxFrameNumMinus4 : Nat
  picOrderCntType : Nat
  log2MaxPicOrderCntLsbMinus4 : Nat
  maxNumRefFrames : Nat
  gapsInFrameNumValueAllowed : UInt8
  picWidthInMbsMinus1 : Nat
  picHeightInMapUnitsMinus1 : Nat
  frameMbsOnly : UInt8
  direct8x8Inference : UInt8
  crop : Option (Nat × Nat × Nat × Nat)
  vui : VuiSemantics
  deriving DecidableEq, Repr

namespace SpsSemantics

def parseCrop (crate : ExpGolomb) : Read (Nat × Nat × Nat × Nat) := do
  let left ← ue crate
  let right ← ue crate
  let top ← ue crate
  let bottom ← ue crate
  pure (left, right, top, bottom)

def parseBits (crate : ExpGolomb) : Read SpsSemantics := do
  let profileIdc ← bits 8
  let constraints ← bits 8
  let levelIdc ← bits 8
  let spsId ← ue crate
  failIf (profileIdc ≠ 100) "semantic SPS parser expects High Profile"
  let chromaFormatIdc ← ue crate
  onlyIf (chromaFormatIdc = 3) bit
  let bitDepthLumaMinus8 ← ue crate
  let bitDepthChromaMinus8 ← ue crate
  let _ ← bit
  let scalingMatrixPresent ← bit
  failIf (scalingMatrixPresent ≠ 0) "semantic SPS parser does not support scaling matrices"
  let log2MaxFrameNumMinus4 ← ue crate
  let picOrderCntType ← ue crate
  failIf (picOrderCntType ≠ 0) "semantic SPS parser expects pic_order_cnt_type 0"
  let log2MaxPicOrderCntLsbMinus4 ← ue crate
  let maxNumRefFrames ← ue crate
  let gapsInFrameNumValueAllowed ← bit
  let picWidthInMbsMinus1 ← ue crate
  let picHeightInMapUnitsMinus1 ← ue crate
  let frameMbsOnly ← bit
  onlyIf (frameMbsOnly = 0) bit
  let direct8x8Inference ← bit
  let crop ← VuiSemantics.optional (parseCrop crate)
  let vuiPresent ← bit
  failIf (vuiPresent = 0) "semantic SPS parser expects VUI"
  let vui ← VuiSemantics.parse crate
  pure ⟨profileIdc, constraints, levelIdc, spsId, chromaFormatIdc, bitDepthLumaMinus8,
    bitDepthChromaMinus8, log2MaxFrameNumMinus4, picOrderCntType, log2MaxPicOrderCntLsbMinus4,
    maxNumRefFrames, gapsInFrameNumValueAllowed, picWidthInMbsMinus1, picHeightInMapUnitsMinus1,
    frameMbsOnly, direct8x8Inference, crop, vui⟩

def parse (crate : ExpGolomb) (nal : List UInt8) : RewriteResult SpsSemantics := do
  let rbsp ← semanticsRbsp nal 7
  let dataEnd ← rbspDataBitLen rbsp
  let (sps, reader) ← parseBits crate ⟨rbsp, 0⟩
  if reader.pos ≠ dataEnd then rewriteError "unparsed SPS data"
  else .ok sps

end SpsSemantics

structure IdrSemantics where
  firstMbInSlice : Nat
  sliceType : Nat
  ppsId : Nat
  frameNum : Nat
  idrPicId : Nat
  picOrderCntLsb : Nat
  noOutputOfPriorPics : UInt8
  longTermReference : UInt8
  sliceQpDelta : Int
  disableDeblockingFilterIdc : Nat
  deblockOffsets : Option (Int × Int)
  cabacPayloadPresent : Bool
  deriving DecidableEq, Repr

namespace IdrSemantics

/-- The header of a slice; whether there is a payload is not known yet. -/
def parseBits (crate : ExpGolomb) : Read (Bool → IdrSemantics) := do
  let firstMbInSlice ← ue crate
  let sliceType ← ue crate
  let ppsId ← ue crate
  let frameNum ← bits 12
  let idrPicId ← ue crate
  let picOrderCntLsb ← bits 13
  let noOutputOfPriorPics ← bit
  let longTermReference ← bit
  let sliceQpDelta ← se crate
  let disableDeblockingFilterIdc ← ue crate
  let deblockOffsets ← readDeblockOffsets crate disableDeblockingFilterIdc
  pure fun cabacPayloadPresent => ⟨firstMbInSlice, sliceType, ppsId, frameNum, idrPicId,
    picOrderCntLsb, noOutputOfPriorPics, longTermReference, sliceQpDelta,
    disableDeblockingFilterIdc, deblockOffsets, cabacPayloadPresent⟩

def parse (crate : ExpGolomb) (nal : List UInt8) : RewriteResult IdrSemantics := do
  let rbsp ← semanticsRbsp nal 5
  let (idr, reader) ← parseBits crate ⟨rbsp, 0⟩
  let (_, reader) ← alignOne 7 reader
  .ok (idr (reader.pos / 8 < rbsp.length))

end IdrSemantics

end Catplay.Model.Fb
