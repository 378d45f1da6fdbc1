import Catplay.Model.Fb.BitReader

/-!
# The NAL rewriter (c2a/catplay_fb/src/carplay_helpers/nal_rewriter.rs)

The SPS and the IDR slices of the encoder are rewritten bit by bit. `zeroes` is an `i32` in the
source: the counter of `remove_emulation_prevention` is checked, that of
`add_emulation_prevention` never passes two.
-/

set_option autoImplicit false

namespace Catplay.Model.Fb

open Catplay.Library.Checked

/-! ## Escaping -/

/-- `i32::MAX`. -/
def i32Max : Nat := 2 ^ 31 - 1

/-- One round of `remove_emulation_prevention` on `(out, zeroes)`. -/
def removeStep (s : List UInt8 × Nat) (byte : UInt8) : RewriteResult (List UInt8 × Nat) :=
  if 2 ≤ s.2 ∧ byte = 3 then .ok (s.1, 0)
  else if byte = 0 then
    -- `zeroes + 1` on an `i32`
    if s.2 < i32Max then .ok (s.1 ++ [byte], s.2 + 1) else .error .panic
  else .ok (s.1 ++ [byte], 0)

def removeEmulationPrevention (data : List UInt8) : RewriteResult (List UInt8) := do
  let s ← data.foldlM removeStep ([], 0)
  .ok s.1

/-- One round of `add_emulation_prevention` on `(out, zeroes)`. -/
def addStep (s : List UInt8 × Nat) (byte : UInt8) : List UInt8 × Nat :=
  let s := if 2 ≤ s.2 ∧ byte ≤ 3 then (s.1 ++ [3], 0) else s
  (s.1 ++ [byte], if byte = 0 then s.2 + 1 else 0)

def addEmulationPrevention (data : List UInt8) : List UInt8 :=
  (data.foldl addStep ([], 0)).1

def annexbPrefixLen (nal : List UInt8) : RewriteResult Nat :=
  if [0, 0, 0, 1].isPrefixOf nal then .ok 4
  else if [0, 0, 1].isPrefixOf nal then .ok 3
  else rewriteError "missing Annex-B start code"

def rebuildNal (nal : List UInt8) (prefixLen : Nat) (header : UInt8) (rbsp : List UInt8) :
    List UInt8 :=
  nal.take prefixLen ++ [header] ++ addEmulationPrevention rbsp

/-! ## Reading and writing in turn -/

structure Streams where
  reader : BitReader
  writer : BitWriter
  deriving DecidableEq, Repr

abbrev Rewrite (α : Type) := StateT Streams (Exec H264FrameBufferError) α

def reading {α : Type} (x : Read α) : Rewrite α := fun s => do
  let (a, reader) ← x s.reader
  .ok (a, { s with reader := reader })

def writing (x : Write) : Rewrite Unit := fun s => do
  let (_, writer) ← x s.writer
  .ok ((), { s with writer := writer })

/-- `writer.bit(reader.bit()?)`. -/
def copyBit : Rewrite UInt8 := do
  let b ← reading BitReader.bit
  writing (BitWriter.bit b)
  pure b

/-- `writer.bits(reader.bits(count)?, count)`. -/
def copyBits (count : Nat) : Rewrite Nat := do
  let value ← reading (BitReader.bits count)
  writing (BitWriter.bits value count)
  pure value

/-- `writer.ue(reader.ue()?)`. -/
def copyUe (crate : ExpGolomb) : Rewrite Nat := do
  let value ← reading (BitReader.ue crate)
  writing (BitWriter.ue crate value)
  pure value

/-! ## The SPS -/

def writeCarplayVui (crate : ExpGolomb) : Write := do
  BitWriter.bit 0 -- aspect_ratio_info_present_flag
  BitWriter.bit 0 -- overscan_info_present_flag
  BitWriter.bit 1 -- video_signal_type_present_flag
  BitWriter.bits 5 3 -- video_format: unspecified
  BitWriter.bit 1 -- video_full_range_flag
  BitWriter.bit 1 -- colour_description_present_flag
  BitWriter.bits 1 8 -- colour_primaries: BT.709
  BitWriter.bits 13 8 -- transfer_characteristics: sRGB
  BitWriter.bits 6 8 -- matrix_coefficients: SMPTE 170M
  BitWriter.bit 0 -- chroma_loc_info_present_flag
  BitWriter.bit 0 -- timing_info_present_flag
  BitWriter.bit 0 -- nal_hrd_parameters_present_flag
  BitWriter.bit 0 -- vcl_hrd_parameters_present_flag
  BitWriter.bit 0 -- pic_struct_present_flag
  BitWriter.bit 1 -- bitstream_restriction_flag
  BitWriter.bit 1 -- motion_vectors_over_pic_boundaries_flag
  BitWriter.ue crate 2 -- max_bytes_per_pic_denom
  BitWriter.ue crate 1 -- max_bits_per_mb_denom
  BitWriter.ue crate 16 -- log2_max_mv_length_horizontal
  BitWriter.ue crate 16 -- log2_max_mv_length_vertical
  BitWriter.ue crate 0 -- num_reorder_frames
  BitWriter.ue crate 4 -- max_dec_frame_buffering

/-- `rewrite_sps` up to the scaling matrices. -/
def rewriteSpsProfile (crate : ExpGolomb) : Rewrite Unit := do
  let profileIdc ← copyBits 8
  let _ ← copyBits 8
  let _ ← copyBits 8
  let _ ← copyUe crate
  failIf (profileIdc ≠ 100) "expected High Profile SPS"
  let chromaFormatIdc ← copyUe crate
  onlyIf (chromaFormatIdc = 3) copyBit
  let _ ← copyUe crate
  let _ ← copyUe crate
  let _ ← copyBit
  let scalingMatrixPresent ← copyBit
  failIf (scalingMatrixPresent ≠ 0) "custom SPS scaling matrices are unsupported"

/-- The frame number and picture order count model of `rewrite_sps`. -/
def rewriteSpsModel (crate : ExpGolomb) : Rewrite Unit := do
  let sourceFrameNumMinus4 ← reading (BitReader.ue crate)
  let sourcePocType ← reading (BitReader.ue crate)
  failIf (sourceFrameNumMinus4 ≠ 0 ∨ sourcePocType ≠ 2) "unexpected x264 frame_num/POC model"
  writing (BitWriter.ue crate 8) -- log2_max_frame_num_minus4
  writing (BitWriter.ue crate 0) -- pic_order_cnt_type
  writing (BitWriter.ue crate 9) -- log2_max_pic_order_cnt_lsb_minus4

/-- `for _ in 0..4`. -/
def copyCrop (crate : ExpGolomb) : Rewrite Unit := do
  let _ ← copyUe crate
  let _ ← copyUe crate
  let _ ← copyUe crate
  let _ ← copyUe crate

/-- `rewrite_sps` from the number of reference frames on. -/
def rewriteSpsFrame (crate : ExpGolomb) : Rewrite Unit := do
  let maxNumRefFrames ← reading (BitReader.ue crate)
  failIf (maxNumRefFrames ≠ 4) "expected four decoded reference frames"
  writing (BitWriter.ue crate maxNumRefFrames)
  let _ ← copyBit
  let _ ← copyUe crate
  let _ ← copyUe crate
  let frameMbsOnly ← copyBit
  onlyIf (frameMbsOnly = 0) copyBit
  let _ ← copyBit
  let frameCropping ← copyBit
  onlyIf (frameCropping ≠ 0) (copyCrop crate)

/-- The end of `rewrite_sps`: the VUI is replaced. -/
def rewriteSpsVui (crate : ExpGolomb) : Rewrite Unit := do
  let vuiPresent ← reading BitReader.bit
  failIf (vuiPresent = 0) "expected VUI parameters"
  writing (BitWriter.bit 1)
  writing (writeCarplayVui crate)
  writing BitWriter.rbspTrailingBits

def rewriteSpsBits (crate : ExpGolomb) : Rewrite Unit := do
  rewriteSpsProfile crate
  rewriteSpsModel crate
  rewriteSpsFrame crate
  rewriteSpsVui crate

def rewriteSps (crate : ExpGolomb) (nal : List UInt8) : RewriteResult (List UInt8) := do
  let prefixLen ← annexbPrefixLen nal
  let header ← orFail nal[prefixLen]? (.x264BitstreamRewrite "missing SPS NAL header")
  if header &&& 0x1f ≠ 7 then rewriteError "expected SPS NAL"
  else
    let payload ← BitReader.sliceFrom nal (prefixLen + 1)
    let rbsp ← removeEmulationPrevention payload
    let (_, streams) ← rewriteSpsBits crate ⟨⟨rbsp, 0⟩, BitWriter.new⟩
    .ok (rebuildNal nal prefixLen header streams.writer.data)

/-! ## IDR slices -/

/-- What `rewrite_idr` reads of a slice header. -/
structure IdrHeader where
  firstMb : Nat
  sliceType : Nat
  ppsId : Nat
  frameNum : Nat
  idrPicId : Nat
  noOutputOfPriorPics : UInt8
  longTermReference : UInt8
  sliceQpDelta : Int
  disableDeblockingFilterIdc : Nat
  deblockOffsets : Option (Int × Int)
  deriving DecidableEq, Repr

def readDeblockOffsets (crate : ExpGolomb) (disableDeblockingFilterIdc : Nat) :
    Read (Option (Int × Int)) :=
  if disableDeblockingFilterIdc ≠ 1 then do
    let alpha ← BitReader.se crate
    let beta ← BitReader.se crate
    pure (some (alpha, beta))
  else pure none

def readIdrHeader (crate : ExpGolomb) : Read IdrHeader := do
  let firstMb ← BitReader.ue crate
  let sliceType ← BitReader.ue crate
  let ppsId ← BitReader.ue crate
  failIf (sliceType % 5 ≠ 2 ∨ ppsId ≠ 0) "expected I slice using PPS 0"
  let frameNum ← BitReader.bits 4
  let idrPicId ← BitReader.ue crate
  let noOutputOfPriorPics ← BitReader.bit
  let longTermReference ← BitReader.bit
  let sliceQpDelta ← BitReader.se crate
  let disableDeblockingFilterIdc ← BitReader.ue crate
  let deblockOffsets ← readDeblockOffsets crate disableDeblockingFilterIdc
  pure ⟨firstMb, sliceType, ppsId, frameNum, idrPicId, noOutputOfPriorPics, longTermReference,
    sliceQpDelta, disableDeblockingFilterIdc, deblockOffsets⟩

def writeDeblockOffsets (crate : ExpGolomb) : Option (Int × Int) → Write
  | some (alpha, beta) => do
    BitWriter.se crate alpha
    BitWriter.se crate beta
  | none => pure ()

def writeIdrHeader (crate : ExpGolomb) (h : IdrHeader) : Write := do
  BitWriter.ue crate h.firstMb
  BitWriter.ue crate h.sliceType
  BitWriter.ue crate h.ppsId
  BitWriter.bits h.frameNum 12
  BitWriter.ue crate h.idrPicId
  BitWriter.bits 0 13 -- pic_order_cnt_lsb for the generated IDR.
  BitWriter.bit h.noOutputOfPriorPics
  BitWriter.bit h.longTermReference
  BitWriter.se crate h.sliceQpDelta
  BitWriter.ue crate h.disableDeblockingFilterIdc
  writeDeblockOffsets crate h.deblockOffsets

/-- `rewrite_idr` from the RBSP on. -/
def rewriteIdrRbsp (crate : ExpGolomb) (nal : List UInt8) (prefixLen : Nat) (header : UInt8)
    (rbsp : List UInt8) : RewriteResult (List UInt8) := do
  let (h, reader) ← readIdrHeader crate ⟨rbsp, 0⟩
  let (_, reader) ← BitReader.alignOne 7 reader
  let cabacStart := reader.pos / 8
  let (_, writer) ← writeIdrHeader crate h BitWriter.new
  let (_, writer) ← BitWriter.alignOne writer
  let cabac ← BitReader.sliceFrom rbsp cabacStart
  .ok (rebuildNal nal prefixLen header (writer.data ++ cabac))

def rewriteIdr (crate : ExpGolomb) (nal : List UInt8) : RewriteResult (List UInt8) := do
  let prefixLen ← annexbPrefixLen nal
  let header ← orFail nal[prefixLen]? (.x264BitstreamRewrite "missing IDR NAL header")
  if header &&& 0x1f ≠ 5 ∨ header >>> 5 = 0 then rewriteError "expected reference IDR NAL"
  else
    let payload ← BitReader.sliceFrom nal (prefixLen + 1)
    let rbsp ← removeEmulationPrevention payload
    rewriteIdrRbsp crate nal prefixLen header rbsp

end Catplay.Model.Fb
