import Catplay.Analysis.Fb.Escaping
import Catplay.Analysis.Fb.Reading

/-!
# Sequence parameter sets

What is rewritten of a sequence parameter set, and what is parsed of the result.
-/

set_option autoImplicit false

/-!
## Rewriting a sequence parameter set

The syntax elements of an SPS are a structure (`SpsSyntax`) with the bits that it is written
as. `Copies x P` says of a step that reads and writes in turn which bits it reads and which it
writes. What `rewrite_sps` accepts has the bits of some syntax elements, and what it gives is
parsed as the same elements with the frame numbers, picture order counts and VUI of CarPlay
(`rewriteSpsBits_meets`).
-/

namespace Catplay.Analysis.Fb

open Catplay.Library Catplay.Library.Checked
open Catplay.Library.BitString Catplay.Library.ExpGolomb
open Catplay.Model.Fb

variable {α β : Type}

/-! ### Reading and writing in turn -/

def Copies (x : Rewrite α) (P : α → List Bool → List Bool → Prop) : Prop :=
  ∀ (s : Streams) (before : List Bool), s.reader.pos ≤ 8 * s.reader.data.length →
    Holds s.writer before → Meets (x s) fun out => ∃ l m, l <+: rest s.reader ∧
      out.2.reader = advance s.reader l.length ∧ Holds out.2.writer (before ++ m) ∧ P out.1 l m

variable {x : Rewrite α} {c : Prop} {crate : ExpGolomb}

theorem Copies.mono {P Q : α → List Bool → List Bool → Prop} (h : Copies x P)
    (hle : ∀ a l m, P a l m → Q a l m) : Copies x Q := by
  intro s before hpos hold
  apply (h s before hpos hold).mono
  rintro out ⟨l, m, hl, hout, hm, hP⟩
  exact ⟨l, m, hl, hout, hm, hle _ _ _ hP⟩

theorem Copies.bind {f : α → Rewrite β} {P : α → List Bool → List Bool → Prop}
    {Q : β → List Bool → List Bool → Prop} (hx : Copies x P)
    (hf : ∀ a l m, P a l m → Copies (f a) fun b l' m' => Q b (l ++ l') (m ++ m')) :
    Copies (x >>= f) Q := by
  intro s before hpos hold
  show Meets (x s >>= fun out => f out.1 out.2) _
  apply (hx s before hpos hold).bind
  rintro ⟨a, s1⟩ ⟨l, m, hl, hreader, hm, hP⟩
  have hin : s1.reader.pos ≤ 8 * s1.reader.data.length := by
    rw [show s1.reader = _ from hreader]
    exact pos_le_of_prefix hpos hl
  apply (hf a l m hP s1 _ hin hm).mono
  rintro ⟨b, s2⟩ ⟨l', m', hl', hreader', hm', hQ⟩
  rw [show s1.reader = _ from hreader] at hl' hreader'
  refine ⟨l ++ l', m ++ m', prefix_rest_append hl hl', ?_, ?_, hQ⟩
  · rw [hreader', advance_advance, List.length_append]
  · rw [← List.append_assoc]
    exact hm'

theorem copies_pure (a : α) : Copies (pure a) fun b l m => b = a ∧ l = [] ∧ m = [] := by
  intro s before _ hold
  exact ⟨[], [], List.nil_prefix, rfl, by rw [List.append_nil]; exact hold, rfl, rfl, rfl⟩

theorem copies_failIf [Decidable c] (reason : String) :
    Copies (failIf c reason) fun _ l m => ¬c ∧ l = [] ∧ m = [] := by
  unfold failIf
  by_cases h : c
  · rw [if_pos h]
    intro s before _ _
    trivial
  · rw [if_neg h]
    exact (copies_pure ()).mono fun _ l m hl => ⟨h, hl.2⟩

theorem copies_reading {x : Read α} {P : α → List Bool → Prop} (h : Reads x P) :
    Copies (reading x) fun a l m => P a l ∧ m = [] := by
  intro s before hpos hold
  show Meets (x s.reader >>= fun out => .ok (out.1, { s with reader := out.2 })) _
  apply (h s.reader hpos).bind
  rintro out ⟨l, hl, hout, hP⟩
  exact ⟨l, [], hl, hout, by rw [List.append_nil]; exact hold, hP, rfl⟩

theorem copies_writing {x : Write} {b : List Bool} (h : Writes x b) :
    Copies (writing x) fun _ l m => l = [] ∧ m = b := by
  intro s before _ hold
  obtain ⟨w, hw, hold'⟩ := h s.writer before hold
  show Meets (x s.writer >>= fun out => .ok ((), { s with writer := out.2 })) _
  rw [hw]
  exact ⟨[], b, List.nil_prefix, rfl, hold', rfl, rfl⟩

/-- What is read is written as it was read. -/
theorem copies_both {x : Read α} {y : α → Write} {P : α → List Bool → Prop} (hx : Reads x P)
    (hy : ∀ a l, P a l → Writes (y a) l) :
    Copies (do let a ← reading x; writing (y a); pure a) fun a l m => P a l ∧ m = l := by
  refine (copies_reading hx).bind fun a l m h => ?_
  refine (copies_writing (hy a l h.1)).bind fun _ l' m' h' => ?_
  refine (copies_pure a).mono fun a' l'' m'' h'' => ?_
  rw [h.2, h'.1, h'.2, h''.1, h''.2.1, h''.2.2, List.nil_append, List.append_nil, List.nil_append]
  exact ⟨h.1, rfl⟩

theorem copies_bit : Copies copyBit fun a l m => (∃ b, a = flag b ∧ l = [b]) ∧ m = l := by
  apply copies_both reads_bit
  rintro a l ⟨b, rfl, rfl⟩
  exact writes_bit b

theorem copies_bits (n : Nat) :
    Copies (copyBits n) fun a l m => (l = natBits n a ∧ a < 2 ^ n) ∧ m = l := by
  apply copies_both (reads_bits n)
  rintro a l ⟨rfl, _⟩
  exact writes_bits a n

theorem copies_ue (hc : CodesAsH264 crate) :
    Copies (copyUe crate) fun a l m => (l = ueCode a ∧ a < 2 ^ 32) ∧ m = l := by
  apply copies_both (reads_ue hc)
  rintro a l ⟨rfl, h⟩
  exact writes_ue hc h

theorem copies_onlyIf [Decidable c] {Q : List Bool → Prop} (h : Copies x fun _ l m => Q l ∧ m = l) :
    Copies (onlyIf c x) fun _ l m => (if c then Q l else l = []) ∧ m = l := by
  unfold onlyIf
  by_cases hc : c
  · simp only [if_pos hc]
    intro s before hpos hold
    show Meets (x s >>= fun out => .ok ((), out.2)) _
    exact (h s before hpos hold).bind fun out hout => hout
  · simp only [if_neg hc]
    exact (copies_pure ()).mono fun _ l m hl => ⟨hl.2.1, hl.2.2.trans hl.2.1.symm⟩

theorem copies_bitIf [Decidable c] :
    Copies (onlyIf c copyBit) fun _ l m => (∃ b, l = if c then [b] else []) ∧ m = l := by
  have hbit : Copies copyBit fun _ l m => (∃ b, l = [b]) ∧ m = l :=
    copies_bit.mono fun _ l m ⟨⟨b, _, hl⟩, hm⟩ => ⟨⟨b, hl⟩, hm⟩
  refine (copies_onlyIf hbit).mono fun _ l m h => ⟨?_, h.2⟩
  by_cases hc : c
  · simpa [hc] using h.1
  · simpa [hc] using h.1

/-! ### The syntax elements -/

/-- The elements up to the scaling matrices, of a High Profile SPS without any. -/
structure SpsProfile where
  constraints : Nat
  levelIdc : Nat
  spsId : Nat
  chromaFormatIdc : Nat
  separateColourPlane : Bool
  bitDepthLumaMinus8 : Nat
  bitDepthChromaMinus8 : Nat
  qpprimeYZeroTransformBypass : Bool

structure SpsProfile.Fits (p : SpsProfile) : Prop where
  constraints : p.constraints < 2 ^ 8
  levelIdc : p.levelIdc < 2 ^ 8
  spsId : p.spsId < 2 ^ 32
  chromaFormatIdc : p.chromaFormatIdc < 2 ^ 32
  bitDepthLumaMinus8 : p.bitDepthLumaMinus8 < 2 ^ 32
  bitDepthChromaMinus8 : p.bitDepthChromaMinus8 < 2 ^ 32

def SpsProfile.bits (p : SpsProfile) : List Bool :=
  natBits 8 100 ++ natBits 8 p.constraints ++ natBits 8 p.levelIdc ++ ueCode p.spsId ++
    ueCode p.chromaFormatIdc ++
    (if p.chromaFormatIdc = 3 then [p.separateColourPlane] else []) ++
    ueCode p.bitDepthLumaMinus8 ++ ueCode p.bitDepthChromaMinus8 ++
    [p.qpprimeYZeroTransformBypass] ++ [false]

/-- The bits of the four cropping offsets. -/
def cropBits (crop : Nat × Nat × Nat × Nat) : List Bool :=
  ueCode crop.1 ++ ueCode crop.2.1 ++ ueCode crop.2.2.1 ++ ueCode crop.2.2.2

/-- The flag that says whether there are offsets, and the offsets. -/
def cropField : Option (Nat × Nat × Nat × Nat) → List Bool
  | some crop => [true] ++ cropBits crop
  | none => [false]

/-- The elements from the number of reference frames to the VUI, which there is. -/
structure SpsFrame where
  gapsInFrameNumValueAllowed : Bool
  picWidthInMbsMinus1 : Nat
  picHeightInMapUnitsMinus1 : Nat
  frameMbsOnly : Bool
  mbAdaptiveFrameField : Bool
  direct8x8Inference : Bool
  crop : Option (Nat × Nat × Nat × Nat)

def CropFits (crop : Nat × Nat × Nat × Nat) : Prop :=
  crop.1 < 2 ^ 32 ∧ crop.2.1 < 2 ^ 32 ∧ crop.2.2.1 < 2 ^ 32 ∧ crop.2.2.2 < 2 ^ 32

structure SpsFrame.Fits (f : SpsFrame) : Prop where
  picWidthInMbsMinus1 : f.picWidthInMbsMinus1 < 2 ^ 32
  picHeightInMapUnitsMinus1 : f.picHeightInMapUnitsMinus1 < 2 ^ 32
  crop : ∀ crop, f.crop = some crop → CropFits crop

def SpsFrame.bits (f : SpsFrame) : List Bool :=
  ueCode 4 ++ [f.gapsInFrameNumValueAllowed] ++ ueCode f.picWidthInMbsMinus1 ++
    ueCode f.picHeightInMapUnitsMinus1 ++ [f.frameMbsOnly] ++
    (if f.frameMbsOnly then [] else [f.mbAdaptiveFrameField]) ++ [f.direct8x8Inference] ++
    cropField f.crop

structure SpsSyntax where
  profile : SpsProfile
  frame : SpsFrame

/-- The bits of an SPS up to its VUI, with those of its frame numbers and picture order
counts. -/
def SpsSyntax.bits (f : SpsSyntax) (model : List Bool) : List Bool :=
  f.profile.bits ++ model ++ f.frame.bits ++ [true]

/-- `log2_max_frame_num_minus4 = 0` and `pic_order_cnt_type = 2`. -/
def sourceModel : List Bool := ueCode 0 ++ ueCode 2

/-- `log2_max_frame_num_minus4 = 8`, `pic_order_cnt_type = 0` and
`log2_max_pic_order_cnt_lsb_minus4 = 9`. -/
def targetModel : List Bool := ueCode 8 ++ ueCode 0 ++ ueCode 9

/-! ### What is copied -/

theorem copies_profile (hc : CodesAsH264 crate) :
    Copies (rewriteSpsProfile crate) fun _ l m =>
      ∃ p : SpsProfile, p.Fits ∧ l = p.bits ∧ m = p.bits := by
  refine (copies_bits 8).bind fun profileIdc _ _ h1 => ?_
  refine (copies_bits 8).bind fun constraints _ _ h2 => ?_
  refine (copies_bits 8).bind fun levelIdc _ _ h3 => ?_
  refine (copies_ue hc).bind fun spsId _ _ h4 => ?_
  refine (copies_failIf _).bind fun _ _ _ h5 => ?_
  refine (copies_ue hc).bind fun chromaFormatIdc _ _ h6 => ?_
  refine copies_bitIf.bind fun _ _ _ h7 => ?_
  refine (copies_ue hc).bind fun luma _ _ h8 => ?_
  refine (copies_ue hc).bind fun chroma _ _ h9 => ?_
  refine copies_bit.bind fun qpprime _ _ h10 => ?_
  refine copies_bit.bind fun scalingMatrixPresent _ _ h11 => ?_
  refine (copies_failIf _).mono fun _ _ _ h12 => ?_
  obtain ⟨⟨rfl, -⟩, rfl⟩ := h1
  obtain ⟨⟨rfl, hconstraints⟩, rfl⟩ := h2
  obtain ⟨⟨rfl, hlevel⟩, rfl⟩ := h3
  obtain ⟨⟨rfl, hid⟩, rfl⟩ := h4
  obtain ⟨hprofile, rfl, rfl⟩ := h5
  obtain ⟨⟨rfl, hformat⟩, rfl⟩ := h6
  obtain ⟨⟨separate, rfl⟩, rfl⟩ := h7
  obtain ⟨⟨rfl, hluma⟩, rfl⟩ := h8
  obtain ⟨⟨rfl, hchroma⟩, rfl⟩ := h9
  obtain ⟨⟨bypass, rfl, rfl⟩, rfl⟩ := h10
  obtain ⟨⟨scaling, rfl, rfl⟩, rfl⟩ := h11
  obtain ⟨hscaling, rfl, rfl⟩ := h12
  rw [not_not] at hprofile
  rw [not_not, flag_eq_zero] at hscaling
  subst hprofile hscaling
  refine ⟨⟨constraints, levelIdc, spsId, chromaFormatIdc, separate, luma, chroma, bypass⟩,
    ⟨hconstraints, hlevel, hid, hformat, hluma, hchroma⟩, ?_, ?_⟩
  · simp [SpsProfile.bits]
  · simp [SpsProfile.bits]

theorem copies_model (hc : CodesAsH264 crate) :
    Copies (rewriteSpsModel crate) fun _ l m => l = sourceModel ∧ m = targetModel := by
  refine (copies_reading (reads_ue hc)).bind fun frameNum _ _ h1 => ?_
  refine (copies_reading (reads_ue hc)).bind fun pocType _ _ h2 => ?_
  refine (copies_failIf _).bind fun _ _ _ h3 => ?_
  refine (copies_writing (writes_ue hc (by omega))).bind fun _ _ _ h4 => ?_
  refine (copies_writing (writes_ue hc (by omega))).bind fun _ _ _ h5 => ?_
  refine (copies_writing (writes_ue hc (by omega))).mono fun _ _ _ h6 => ?_
  obtain ⟨⟨rfl, -⟩, rfl⟩ := h1
  obtain ⟨⟨rfl, -⟩, rfl⟩ := h2
  obtain ⟨hmodel, rfl, rfl⟩ := h3
  obtain ⟨rfl, rfl⟩ := h4
  obtain ⟨rfl, rfl⟩ := h5
  obtain ⟨rfl, rfl⟩ := h6
  obtain ⟨rfl, rfl⟩ : frameNum = 0 ∧ pocType = 2 := by omega
  simp [sourceModel, targetModel]

theorem copies_crop (hc : CodesAsH264 crate) :
    Copies (copyCrop crate) fun _ l m => (∃ crop, CropFits crop ∧ l = cropBits crop) ∧ m = l := by
  refine (copies_ue hc).bind fun left _ _ h1 => ?_
  refine (copies_ue hc).bind fun right _ _ h2 => ?_
  refine (copies_ue hc).bind fun top _ _ h3 => ?_
  refine (copies_ue hc).bind fun bottom _ _ h4 => ?_
  refine (copies_pure _).mono fun _ _ _ h5 => ?_
  obtain ⟨⟨rfl, hleft⟩, rfl⟩ := h1
  obtain ⟨⟨rfl, hright⟩, rfl⟩ := h2
  obtain ⟨⟨rfl, htop⟩, rfl⟩ := h3
  obtain ⟨⟨rfl, hbottom⟩, rfl⟩ := h4
  obtain ⟨-, rfl, rfl⟩ := h5
  exact ⟨⟨(left, right, top, bottom), ⟨hleft, hright, htop, hbottom⟩, by simp [cropBits]⟩, rfl⟩

theorem copies_frame (hc : CodesAsH264 crate) :
    Copies (rewriteSpsFrame crate) fun _ l m =>
      ∃ f : SpsFrame, f.Fits ∧ l = f.bits ∧ m = f.bits := by
  refine (copies_reading (reads_ue hc)).bind fun refFrames _ _ h1 => ?_
  refine (copies_failIf _).bind fun _ _ _ h2 => ?_
  obtain ⟨⟨rfl, hrange⟩, rfl⟩ := h1
  refine (copies_writing (writes_ue hc hrange)).bind fun _ _ _ h3 => ?_
  refine copies_bit.bind fun gaps _ _ h4 => ?_
  refine (copies_ue hc).bind fun width _ _ h5 => ?_
  refine (copies_ue hc).bind fun height _ _ h6 => ?_
  refine copies_bit.bind fun frameMbsOnly _ _ h7 => ?_
  refine copies_bitIf.bind fun _ _ _ h8 => ?_
  refine copies_bit.bind fun direct _ _ h9 => ?_
  refine copies_bit.bind fun frameCropping _ _ h10 => ?_
  refine (copies_onlyIf (copies_crop hc)).mono fun _ _ _ h11 => ?_
  obtain ⟨hframes, rfl, rfl⟩ := h2
  obtain ⟨rfl, rfl⟩ := h3
  obtain ⟨⟨gaps, rfl, rfl⟩, rfl⟩ := h4
  obtain ⟨⟨rfl, hwidth⟩, rfl⟩ := h5
  obtain ⟨⟨rfl, hheight⟩, rfl⟩ := h6
  obtain ⟨⟨mbsOnly, rfl, rfl⟩, rfl⟩ := h7
  obtain ⟨⟨adaptive, rfl⟩, rfl⟩ := h8
  obtain ⟨⟨direct, rfl, rfl⟩, rfl⟩ := h9
  obtain ⟨⟨cropping, rfl, rfl⟩, rfl⟩ := h10
  obtain ⟨hcrop, rfl⟩ := h11
  rw [not_not] at hframes
  subst hframes
  have hadaptive : (if flag mbsOnly = 0 then [adaptive] else []) =
      if mbsOnly then [] else [adaptive] := by
    cases mbsOnly <;> rfl
  cases cropping with
  | true =>
    rw [if_pos (by decide)] at hcrop
    obtain ⟨crop, hfits, rfl⟩ := hcrop
    refine ⟨⟨gaps, width, height, mbsOnly, adaptive, direct, some crop⟩,
      ⟨hwidth, hheight, fun _ h => Option.some.inj h ▸ hfits⟩, ?_, ?_⟩
    · simp [SpsFrame.bits, cropField, hadaptive]
    · simp [SpsFrame.bits, cropField, hadaptive]
  | false =>
    rw [if_neg (by decide)] at hcrop
    refine ⟨⟨gaps, width, height, mbsOnly, adaptive, direct, none⟩,
      ⟨hwidth, hheight, by simp⟩, ?_, ?_⟩
    · simp [SpsFrame.bits, cropField, hadaptive, hcrop]
    · simp [SpsFrame.bits, cropField, hadaptive, hcrop]

/-! ### The VUI -/

def carplayVuiBits : List Bool :=
  [false, false, true] ++ natBits 3 5 ++ [true, true] ++ natBits 8 1 ++ natBits 8 13 ++
    natBits 8 6 ++ [false, false, false, false, false, true, true] ++ ueCode 2 ++ ueCode 1 ++
    ueCode 16 ++ ueCode 16 ++ ueCode 0 ++ ueCode 4

theorem Writes.cast {x : Write} {l m : List Bool} (h : Writes x l) (heq : l = m) : Writes x m :=
  heq ▸ h

theorem writes_carplayVui (hc : CodesAsH264 crate) :
    Writes (writeCarplayVui crate) carplayVuiBits := by
  have hue : ∀ v, v < 2 ^ 5 → Writes (BitWriter.ue crate v) (ueCode v) :=
    fun v hv => writes_ue hc (by omega)
  have hchain : Writes (writeCarplayVui crate) _ :=
    (writes_bit false).bind <| (writes_bit false).bind <| (writes_bit true).bind <|
    (writes_bits 5 3).bind <| (writes_bit true).bind <| (writes_bit true).bind <|
    (writes_bits 1 8).bind <| (writes_bits 13 8).bind <| (writes_bits 6 8).bind <|
    (writes_bit false).bind <| (writes_bit false).bind <| (writes_bit false).bind <|
    (writes_bit false).bind <| (writes_bit false).bind <| (writes_bit true).bind <|
    (writes_bit true).bind <| (hue 2 (by omega)).bind <| (hue 1 (by omega)).bind <|
    (hue 16 (by omega)).bind <| (hue 16 (by omega)).bind <| (hue 0 (by omega)).bind <|
    hue 4 (by omega)
  apply hchain.cast
  simp [carplayVuiBits]

/-- The stop bit, and zeros up to the next byte. -/
theorem rbspTrailingBits_ok {w : BitWriter} {l : List Bool} (h : Holds w l) :
    ∃ w', BitWriter.rbspTrailingBits w = .ok ((), w') ∧
      bits w'.data = l ++ true :: List.replicate (padding (l.length + 1)) false := by
  obtain ⟨w1, h1, hold1⟩ := writes_bit true w l h
  have hlen : (l ++ [true]).length = l.length + 1 := by
    rw [List.length_append]
    rfl
  have hfuel : padding (l ++ [true]).length ≤ 7 := by
    unfold padding
    omega
  obtain ⟨w2, h2, hold2⟩ := writes_alignWith false 7 hold1 hfuel
  refine ⟨w2, ?_, ?_⟩
  · show (BitWriter.bit (flag true) w >>= fun out => _) = _
    rw [h1]
    exact h2
  · rw [hold2.bits_eq (length_align _ _), hlen, List.append_assoc]
    rfl

/-- Behind what `x` writes there is the stop bit. -/
theorem trailing_meets {x : Rewrite Unit} {P : Unit → List Bool → List Bool → Prop}
    (hx : Copies x P) {s : Streams} {before : List Bool}
    (hpos : s.reader.pos ≤ 8 * s.reader.data.length) (hold : Holds s.writer before) :
    Meets ((x >>= fun _ => writing BitWriter.rbspTrailingBits) s) fun out =>
      ∃ l m, l <+: rest s.reader ∧ P () l m ∧ ∃ n < 8,
        bits out.2.writer.data = (before ++ m) ++ true :: List.replicate n false := by
  show Meets (x s >>= fun out => writing BitWriter.rbspTrailingBits out.2) _
  apply (hx s before hpos hold).bind
  rintro ⟨_, s'⟩ ⟨l, m, hl, -, hold', hP⟩
  obtain ⟨w, hw, hbits⟩ := rbspTrailingBits_ok hold'
  show Meets (BitWriter.rbspTrailingBits s'.writer >>= fun out =>
    .ok ((), { s' with writer := out.2 })) _
  rw [hw]
  exact ⟨l, m, hl, hP, padding ((before ++ m).length + 1), Nat.mod_lt _ (by omega), hbits⟩

/-- The steps of `rewrite_sps` before the trailing bits. -/
theorem copies_spsBits (hc : CodesAsH264 crate) :
    Copies (do
      rewriteSpsProfile crate
      rewriteSpsModel crate
      rewriteSpsFrame crate
      let vuiPresent ← reading BitReader.bit
      failIf (vuiPresent = 0) "expected VUI parameters"
      writing (BitWriter.bit 1)
      writing (writeCarplayVui crate)) fun _ l m => ∃ f : SpsSyntax, f.profile.Fits ∧
        f.frame.Fits ∧ l = f.bits sourceModel ∧ m = f.bits targetModel ++ carplayVuiBits := by
  refine (copies_profile hc).bind fun _ _ _ h1 => ?_
  refine (copies_model hc).bind fun _ _ _ h2 => ?_
  refine (copies_frame hc).bind fun _ _ _ h3 => ?_
  refine (copies_reading reads_bit).bind fun _ _ _ h4 => ?_
  refine (copies_failIf _).bind fun _ _ _ h5 => ?_
  refine (copies_writing (writes_bit true)).bind fun _ _ _ h6 => ?_
  refine (copies_writing (writes_carplayVui hc)).mono fun _ _ _ h7 => ?_
  obtain ⟨profile, hprofile, rfl, rfl⟩ := h1
  obtain ⟨rfl, rfl⟩ := h2
  obtain ⟨frame, hframe, rfl, rfl⟩ := h3
  obtain ⟨⟨present, rfl, rfl⟩, rfl⟩ := h4
  obtain ⟨hpresent, rfl, rfl⟩ := h5
  obtain ⟨rfl, rfl⟩ := h6
  obtain ⟨rfl, rfl⟩ := h7
  rw [flag_eq_zero, Bool.not_eq_false] at hpresent
  subst hpresent
  refine ⟨⟨profile, frame⟩, hprofile, hframe, ?_, ?_⟩
  · simp [SpsSyntax.bits]
  · simp [SpsSyntax.bits]

/-- **What `rewrite_sps` reads and writes.** -/
theorem rewriteSpsBits_meets (hc : CodesAsH264 crate) (rbsp : List UInt8) :
    Meets (rewriteSpsBits crate ⟨⟨rbsp, 0⟩, BitWriter.new⟩) fun out =>
      ∃ f : SpsSyntax, f.profile.Fits ∧ f.frame.Fits ∧ f.bits sourceModel <+: bits rbsp ∧
        ∃ n < 8, bits out.2.writer.data =
          (f.bits targetModel ++ carplayVuiBits) ++ true :: List.replicate n false := by
  have hmeets := trailing_meets (copies_spsBits hc) (s := ⟨⟨rbsp, 0⟩, BitWriter.new⟩)
    (Nat.zero_le _) holds_new
  simp only [bind_assoc] at hmeets
  apply Meets.mono hmeets
  rintro out ⟨l, m, hl, ⟨f, hprofile, hframe, rfl, rfl⟩, n, hn, hbits⟩
  exact ⟨f, hprofile, hframe, hl, n, hn, hbits⟩

end Catplay.Analysis.Fb

/-!
## Parsing a sequence parameter set

`SpsSemantics::parse` reads from the bits of syntax elements these elements (`accepts_sps`), and
finds the stop bit behind them (`rbspDataBitLen_ok`). A NAL unit that was rebuilt is unescaped
to the bytes it was built from (`semanticsRbsp_rebuildNal`).
-/

namespace Catplay.Analysis.Fb

open Catplay.Library Catplay.Library.Checked
open Catplay.Library.BitString Catplay.Library.ExpGolomb
open Catplay.Model.Fb

variable {α β : Type}

variable {l : List Bool} {crate : ExpGolomb} {n : Nat} {header : UInt8} {nal : List UInt8}

theorem Accepts.cast {x : Read α} {m : List Bool} {a : α} (h : Accepts x l a) (heq : l = m) :
    Accepts x m a := heq ▸ h

/-! ### The VUI of CarPlay -/

theorem accepts_some {x : Read α} {a : α} (h : Accepts x l a) :
    Accepts (VuiSemantics.optional x) (true :: l) (some a) := by
  have hinner : Accepts (x >>= fun a => pure (some a)) (l ++ []) (some a) := h.bind (accepts_pure _)
  rw [List.append_nil] at hinner
  exact (accepts_bit true).bind hinner

theorem accepts_none (x : Read α) : Accepts (VuiSemantics.optional x) [false] none :=
  (accepts_bit false).bind (accepts_pure none)

/-- The VUI that the rewriter writes. -/
def carplayVui : VuiSemantics where
  aspectRatio := none
  overscanAppropriate := none
  videoSignal := some ⟨5, 1, some (1, 13, 6)⟩
  chromaLoc := none
  timing := none
  picStructPresent := 0
  bitstreamRestriction := some ⟨1, 2, 1, 16, 16, 0, 4⟩

theorem accepts_carplayVui (hc : CodesAsH264 crate) :
    Accepts (VuiSemantics.parse crate) carplayVuiBits carplayVui := by
  have hue : ∀ v, v < 2 ^ 5 → Accepts (BitReader.ue crate) (ueCode v) v :=
    fun v hv => accepts_ue hc (by omega)
  have hcolour : Accepts VuiSemantics.parseColourDescription
      (natBits 8 1 ++ (natBits 8 13 ++ (natBits 8 6 ++ []))) (1, 13, 6) :=
    (accepts_bits (by omega) (by omega)).bind <| (accepts_bits (by omega) (by omega)).bind <|
      (accepts_bits (by omega) (by omega)).bind <| accepts_pure _
  have hsignal : Accepts VuiSemantics.parseVideoSignal _ ⟨5, 1, some (1, 13, 6)⟩ :=
    (accepts_bits (n := 3) (by omega) (by omega)).bind <| (accepts_bit true).bind <|
      (accepts_some hcolour).bind <| accepts_pure _
  have hrestriction : Accepts (VuiSemantics.parseBitstreamRestriction crate) _
      ⟨1, 2, 1, 16, 16, 0, 4⟩ :=
    (accepts_bit true).bind <| (hue 2 (by omega)).bind <| (hue 1 (by omega)).bind <|
      (hue 16 (by omega)).bind <| (hue 16 (by omega)).bind <| (hue 0 (by omega)).bind <|
      (hue 4 (by omega)).bind <| accepts_pure _
  refine ((accepts_none _).bind <| (accepts_none _).bind <| (accepts_some hsignal).bind <|
    (accepts_none _).bind <| (accepts_none _).bind <| (accepts_bit false).bind <|
    (accepts_bit false).bind <| (accepts_failIf _ (by decide)).bind <| (accepts_bit false).bind <|
    (accepts_some hrestriction).bind <| accepts_pure carplayVui).cast ?_
  simp [carplayVuiBits]

/-! ### The elements -/

/-- What is parsed from the rewritten SPS of `f`. -/
def SpsSyntax.semantics (f : SpsSyntax) : SpsSemantics where
  profileIdc := 100
  constraints := f.profile.constraints
  levelIdc := f.profile.levelIdc
  spsId := f.profile.spsId
  chromaFormatIdc := f.profile.chromaFormatIdc
  bitDepthLumaMinus8 := f.profile.bitDepthLumaMinus8
  bitDepthChromaMinus8 := f.profile.bitDepthChromaMinus8
  log2MaxFrameNumMinus4 := 8
  picOrderCntType := 0
  log2MaxPicOrderCntLsbMinus4 := 9
  maxNumRefFrames := 4
  gapsInFrameNumValueAllowed := flag f.frame.gapsInFrameNumValueAllowed
  picWidthInMbsMinus1 := f.frame.picWidthInMbsMinus1
  picHeightInMapUnitsMinus1 := f.frame.picHeightInMapUnitsMinus1
  frameMbsOnly := flag f.frame.frameMbsOnly
  direct8x8Inference := flag f.frame.direct8x8Inference
  crop := f.frame.crop
  vui := carplayVui

theorem accepts_crop (hc : CodesAsH264 crate)
    {crop : Option (Nat × Nat × Nat × Nat)} (hfits : ∀ c, crop = some c → CropFits c) :
    Accepts (VuiSemantics.optional (SpsSemantics.parseCrop crate))
      (cropField crop) crop := by
  cases crop with
  | none => exact accepts_none _
  | some c =>
    obtain ⟨hleft, hright, htop, hbottom⟩ := hfits c rfl
    have hcrop : Accepts (SpsSemantics.parseCrop crate) _ c :=
      (accepts_ue hc hleft).bind <| (accepts_ue hc hright).bind <| (accepts_ue hc htop).bind <|
        (accepts_ue hc hbottom).bind <| accepts_pure _
    refine (accepts_some hcrop).cast ?_
    simp [cropField, cropBits]

/-- **The elements are parsed as they were written.** -/
theorem accepts_sps (hc : CodesAsH264 crate) {f : SpsSyntax}
    (hp : f.profile.Fits) (hf : f.frame.Fits) :
    Accepts (SpsSemantics.parseBits crate) (f.bits targetModel ++ carplayVuiBits) f.semantics := by
  have hue : ∀ v, v < 2 ^ 5 → Accepts (BitReader.ue crate) (ueCode v) v :=
    fun v hv => accepts_ue hc (by omega)
  have hmbs : (if flag f.frame.frameMbsOnly = 0 then [f.frame.mbAdaptiveFrameField] else []) =
      if f.frame.frameMbsOnly then [] else [f.frame.mbAdaptiveFrameField] := by
    cases f.frame.frameMbsOnly <;> rfl
  refine ((accepts_bits (v := 100) (by omega) (by omega)).bind <|
    (accepts_bits (by omega) hp.constraints).bind <| (accepts_bits (by omega) hp.levelIdc).bind <|
    (accepts_ue hc hp.spsId).bind <| (accepts_failIf _ (by decide)).bind <|
    (accepts_ue hc hp.chromaFormatIdc).bind <|
    (accepts_onlyIf (accepts_bit f.profile.separateColourPlane)).bind <|
    (accepts_ue hc hp.bitDepthLumaMinus8).bind <| (accepts_ue hc hp.bitDepthChromaMinus8).bind <|
    (accepts_bit f.profile.qpprimeYZeroTransformBypass).bind <| (accepts_bit false).bind <|
    (accepts_failIf _ (by decide)).bind <| (hue 8 (by omega)).bind <| (hue 0 (by omega)).bind <|
    (accepts_failIf _ (by decide)).bind <| (hue 9 (by omega)).bind <| (hue 4 (by omega)).bind <|
    (accepts_bit f.frame.gapsInFrameNumValueAllowed).bind <|
    (accepts_ue hc hf.picWidthInMbsMinus1).bind <|
    (accepts_ue hc hf.picHeightInMapUnitsMinus1).bind <|
    (accepts_bit f.frame.frameMbsOnly).bind <|
    (accepts_onlyIf (accepts_bit f.frame.mbAdaptiveFrameField)).bind <|
    (accepts_bit f.frame.direct8x8Inference).bind <| (accepts_crop hc hf.crop).bind <|
    (accepts_bit true).bind <| (accepts_failIf _ (by decide)).bind <|
    (accepts_carplayVui hc).bind <| accepts_pure f.semantics).cast ?_
  simp only [hmbs, SpsSyntax.bits, SpsProfile.bits, SpsFrame.bits, targetModel, List.append_assoc,
    List.nil_append, List.append_nil]

/-! ### The stop bit -/

theorem trailingZeros_eq {b : UInt8} (hn : n < 8) (hset : b.toNat.testBit n = true)
    (hclear : ∀ i < n, b.toNat.testBit i = false) : trailingZeros b = n := by
  have hfind : (List.range 8).find? (fun i => b.toNat.testBit i) = some n := by
    rw [List.find?_range_eq_some]
    refine ⟨hset, List.mem_range.mpr hn, fun i hi => ?_⟩
    rw [hclear i hi]
    rfl
  unfold trailingZeros
  rw [hfind]
  rfl

/-- **The data end at the last bit that is set.** -/
theorem rbspDataBitLen_ok {data : List UInt8} (hn : n < 8)
    (hbits : bits data = l ++ true :: List.replicate n false) :
    rbspDataBitLen data = .ok l.length := by
  have hcount : 8 * data.length = l.length + 1 + n := by
    rw [← length_bits, hbits]
    simp
    omega
  have hne : data ≠ [] := by
    rintro rfl
    rw [List.length_nil] at hcount
    omega
  obtain ⟨init, b, rfl⟩ : ∃ init b, data = init ++ [b] :=
    ⟨data.dropLast, data.getLast hne, (List.dropLast_append_getLast hne).symm⟩
  rw [List.length_append, List.length_singleton] at hcount
  -- the bits of the last byte, from its lowest one on
  have hread : ∀ i < 8, (bits (init ++ [b]))[8 * init.length + (7 - i)]? =
      some (b.toNat.testBit i) := by
    intro i hi
    have hbyte : (8 * init.length + (7 - i)) / 8 = init.length := by omega
    have hbit : 7 - (8 * init.length + (7 - i)) % 8 = i := by omega
    rw [getElem?_bits, hbyte, List.getElem?_append_right (Nat.le_refl _), Nat.sub_self, hbit]
    rfl
  have hset : b.toNat.testBit n = true := by
    have h := hread n hn
    rw [hbits, show 8 * init.length + (7 - n) = l.length by omega,
      List.getElem?_append_right (Nat.le_refl _), Nat.sub_self] at h
    exact (Option.some.inj h).symm
  have hclear : ∀ i < n, b.toNat.testBit i = false := by
    intro i hi
    have h := hread i (by omega)
    rw [hbits, show 8 * init.length + (7 - i) = l.length + (n - 1 - i + 1) by omega,
      List.getElem?_append_right (Nat.le_add_right _ _), Nat.add_sub_cancel_left,
      List.getElem?_cons_succ, List.getElem?_replicate, if_pos (by omega)] at h
    exact (Option.some.inj h).symm
  have hzero : b ≠ 0 := by
    rintro rfl
    rw [show (0 : UInt8).toNat = 0 from rfl, Nat.zero_testBit] at hset
    cases hset
  have hfind : ((init ++ [b]).zipIdx.reverse.find? fun item => item.1 ≠ 0) =
      some (b, init.length) := by
    rw [List.zipIdx_append, List.reverse_append]
    simp [hzero]
  unfold rbspDataBitLen
  rw [hfind]
  show Except.ok (init.length * 8 + 7 - trailingZeros b) = _
  rw [trailingZeros_eq hn hset hclear, show init.length * 8 + 7 - n = l.length by omega]

/-! ### NAL units -/

/-- A NAL unit with its start code. -/
structure IsNal (nal start : List UInt8) (header : UInt8) (payload : List UInt8) : Prop where
  startCode : start = [0, 0, 0, 1] ∨ start = [0, 0, 1]
  bytes : nal = start ++ header :: payload

theorem annexbPrefixLen_ok {start : List UInt8} {payload : List UInt8}
    (h : IsNal nal start header payload) : annexbPrefixLen nal = .ok start.length := by
  unfold annexbPrefixLen
  rw [h.bytes]
  rcases h.startCode with rfl | rfl
  · rfl
  · rfl

/-- What the start code and the header are read from. -/
theorem isNal_of_prefixLen (hlen : annexbPrefixLen nal = .ok n) (hheader : nal[n]? = some header) :
    IsNal nal (nal.take n) header (nal.drop (n + 1)) ∧ (nal.take n).length = n := by
  have hlt : n < nal.length := (List.getElem?_eq_some_iff.mp hheader).1
  have hsplit : nal = nal.take n ++ header :: nal.drop (n + 1) := by
    have hget : nal[n] = header := (List.getElem?_eq_some_iff.mp hheader).2
    rw [← hget, ← List.drop_eq_getElem_cons hlt, List.take_append_drop]
  have hstart : nal.take n = [0, 0, 0, 1] ∨ nal.take n = [0, 0, 1] := by
    unfold annexbPrefixLen at hlen
    split at hlen
    · rename_i hprefix
      obtain rfl : 4 = n := Except.ok.inj hlen
      obtain ⟨t, ht⟩ := List.isPrefixOf_iff_prefix.mp hprefix
      rw [← ht]
      exact .inl rfl
    · split at hlen
      · rename_i hprefix
        obtain rfl : 3 = n := Except.ok.inj hlen
        obtain ⟨t, ht⟩ := List.isPrefixOf_iff_prefix.mp hprefix
        rw [← ht]
        exact .inr rfl
      · cases hlen
  exact ⟨⟨hstart, hsplit⟩, by rw [List.length_take]; omega⟩

/-- **What was built from an RBSP** is unescaped to it. -/
theorem semanticsRbsp_rebuildNal {start : List UInt8} {type : UInt8} {payload : List UInt8}
    (h : IsNal nal start header payload) (htype : header &&& 0x1f = type) (rbsp : List UInt8) :
    semanticsRbsp (rebuildNal nal start.length header rbsp) type = .ok rbsp := by
  have hbuilt : IsNal (rebuildNal nal start.length header rbsp) start header
      (addEmulationPrevention rbsp) := by
    refine ⟨h.startCode, ?_⟩
    unfold rebuildNal
    rw [h.bytes, List.take_left, List.append_assoc]
    rfl
  have hheader : (rebuildNal nal start.length header rbsp)[start.length]? = some header := by
    rw [hbuilt.bytes, List.getElem?_append_right (Nat.le_refl _), Nat.sub_self]
    rfl
  have hpayload : BitReader.sliceFrom (rebuildNal nal start.length header rbsp)
      (start.length + 1) = .ok (addEmulationPrevention rbsp) := by
    have hsplit : rebuildNal nal start.length header rbsp =
        (start ++ [header]) ++ (addEmulationPrevention rbsp ++ []) := by
      rw [hbuilt.bytes]
      simp
    unfold BitReader.sliceFrom
    rw [hsplit]
    exact slice_append _ _ _ (by simp) (by simp; omega)
  unfold semanticsRbsp
  rw [annexbPrefixLen_ok hbuilt]
  show (orFail (rebuildNal nal start.length header rbsp)[start.length]? _ >>= fun header => _) = _
  rw [hheader]
  show (if header &&& 0x1f ≠ type then _ else _) = _
  rw [if_neg (not_not.mpr htype), hpayload]
  exact remove_add rbsp

end Catplay.Analysis.Fb
