import Catplay.Analysis.Fb.SpsRewriting

/-!
# Rewriting the slices of an IDR picture

The syntax elements of a slice header (`IdrSyntax`) with the bits they are written as: `4` bits
of `frame_num` and no `pic_order_cnt_lsb` in what is rewritten, `12` bits and a
`pic_order_cnt_lsb` of zero in what CarPlay reads. The header is read and written exactly,
except that a signed element of `-2 ^ 31` overflows while it is written
(`writeIdrHeader_panics`).
-/

set_option autoImplicit false

namespace Catplay.Analysis.Fb

open Catplay.Library Catplay.Library.Checked
open Catplay.Library.BitString Catplay.Library.ExpGolomb
open Catplay.Model.Fb

/-- An `i32`. -/
def FitsI32 (k : Int) : Prop := -2 ^ 31 ≤ k ∧ k < 2 ^ 31

structure IdrSyntax where
  firstMb : Nat
  sliceType : Nat
  frameNum : Nat
  idrPicId : Nat
  noOutputOfPriorPics : Bool
  longTermReference : Bool
  sliceQpDelta : Int
  disableDeblockingFilterIdc : Nat
  deblockOffsets : Option (Int × Int)

/-- The elements are in range, the slice is an I slice, and the offsets are there unless the
filter is disabled. -/
structure IdrSyntax.Fits (s : IdrSyntax) : Prop where
  firstMb : s.firstMb < 2 ^ 32
  sliceType : s.sliceType < 2 ^ 32
  intra : s.sliceType % 5 = 2
  frameNum : s.frameNum < 2 ^ 4
  idrPicId : s.idrPicId < 2 ^ 32
  sliceQpDelta : FitsI32 s.sliceQpDelta
  disableDeblockingFilterIdc : s.disableDeblockingFilterIdc < 2 ^ 32
  offsets : s.disableDeblockingFilterIdc = 1 ↔ s.deblockOffsets = none
  deblockOffsets : ∀ o, s.deblockOffsets = some o → FitsI32 o.1 ∧ FitsI32 o.2

def offsetBits : Option (Int × Int) → List Bool
  | some o => seCode o.1 ++ seCode o.2
  | none => []

def IdrSyntax.bits (s : IdrSyntax) (width : Nat) (pocBits : List Bool) : List Bool :=
  ueCode s.firstMb ++ ueCode s.sliceType ++ ueCode 0 ++ natBits width s.frameNum ++
    ueCode s.idrPicId ++ pocBits ++ [s.noOutputOfPriorPics] ++ [s.longTermReference] ++
    seCode s.sliceQpDelta ++ ueCode s.disableDeblockingFilterIdc ++ offsetBits s.deblockOffsets

def IdrSyntax.sourceBits (s : IdrSyntax) : List Bool := s.bits 4 []

def IdrSyntax.targetBits (s : IdrSyntax) : List Bool := s.bits 12 (natBits 13 0)

/-- What the rewriter reads. -/
def IdrSyntax.header (s : IdrSyntax) : IdrHeader where
  firstMb := s.firstMb
  sliceType := s.sliceType
  ppsId := 0
  frameNum := s.frameNum
  idrPicId := s.idrPicId
  noOutputOfPriorPics := flag s.noOutputOfPriorPics
  longTermReference := flag s.longTermReference
  sliceQpDelta := s.sliceQpDelta
  disableDeblockingFilterIdc := s.disableDeblockingFilterIdc
  deblockOffsets := s.deblockOffsets

/-- What is parsed from the rewritten slice. -/
def IdrSyntax.semantics (s : IdrSyntax) (cabacPayloadPresent : Bool) : IdrSemantics where
  firstMbInSlice := s.firstMb
  sliceType := s.sliceType
  ppsId := 0
  frameNum := s.frameNum
  idrPicId := s.idrPicId
  picOrderCntLsb := 0
  noOutputOfPriorPics := flag s.noOutputOfPriorPics
  longTermReference := flag s.longTermReference
  sliceQpDelta := s.sliceQpDelta
  disableDeblockingFilterIdc := s.disableDeblockingFilterIdc
  deblockOffsets := s.deblockOffsets
  cabacPayloadPresent := cabacPayloadPresent

/-- A signed element is the smallest `i32`. -/
def IdrSyntax.HasMin (s : IdrSyntax) : Prop :=
  s.sliceQpDelta = -2 ^ 31 ∨ ∃ o, s.deblockOffsets = some o ∧ (o.1 = -2 ^ 31 ∨ o.2 = -2 ^ 31)

/-! ## Reading -/

variable {crate : ExpGolomb} {s : IdrSyntax}

theorem reads_deblockOffsets (hc : CodesAsH264 crate) (idc : Nat) :
    Reads (readDeblockOffsets crate idc) fun o l => l = offsetBits o ∧ (idc = 1 ↔ o = none) ∧
      ∀ p, o = some p → FitsI32 p.1 ∧ FitsI32 p.2 := by
  unfold readDeblockOffsets
  by_cases h : idc = 1
  · rw [if_neg (not_not.mpr h)]
    refine (reads_pure _).mono fun o l hl => ?_
    obtain ⟨rfl, rfl⟩ := hl
    exact ⟨rfl, ⟨fun _ => rfl, fun _ => h⟩, fun p hp => by cases hp⟩
  · rw [if_pos h]
    refine (reads_se hc).bind fun alpha _ h1 => ?_
    refine (reads_se hc).bind fun beta _ h2 => ?_
    refine (reads_pure _).mono fun o l hl => ?_
    obtain ⟨rfl, halpha⟩ := h1
    obtain ⟨rfl, hbeta⟩ := h2
    obtain ⟨rfl, rfl⟩ := hl
    refine ⟨by simp [offsetBits], ⟨fun h' => absurd h' h, fun h' => by cases h'⟩, ?_⟩
    intro p hp
    obtain rfl := Option.some.inj hp
    exact ⟨halpha, hbeta⟩

theorem accepts_deblockOffsets (hc : CodesAsH264 crate)
    (hs : s.Fits) : Accepts (readDeblockOffsets crate s.disableDeblockingFilterIdc)
      (offsetBits s.deblockOffsets) s.deblockOffsets := by
  unfold readDeblockOffsets
  cases ho : s.deblockOffsets with
  | none =>
    rw [if_neg (not_not.mpr (hs.offsets.mpr ho))]
    exact accepts_pure none
  | some o =>
    have hne : s.disableDeblockingFilterIdc ≠ 1 := by
      intro h
      rw [hs.offsets.mp h] at ho
      cases ho
    obtain ⟨halpha, hbeta⟩ := hs.deblockOffsets o ho
    rw [if_pos hne]
    refine ((accepts_se hc halpha.1 halpha.2).bind <| (accepts_se hc hbeta.1 hbeta.2).bind <|
      accepts_pure (some o)).cast ?_
    simp [offsetBits]

/-- **What is read** are the bits of some elements. -/
theorem reads_idrHeader (hc : CodesAsH264 crate) :
    Reads (readIdrHeader crate) fun h l =>
      ∃ s : IdrSyntax, s.Fits ∧ h = s.header ∧ l = s.sourceBits := by
  refine (reads_ue hc).bind fun firstMb _ h1 => ?_
  refine (reads_ue hc).bind fun sliceType _ h2 => ?_
  refine (reads_ue hc).bind fun ppsId _ h3 => ?_
  refine (reads_failIf _).bind fun _ _ h4 => ?_
  refine (reads_bits 4).bind fun frameNum _ h5 => ?_
  refine (reads_ue hc).bind fun idrPicId _ h6 => ?_
  refine reads_bit.bind fun noOutput _ h7 => ?_
  refine reads_bit.bind fun longTerm _ h8 => ?_
  refine (reads_se hc).bind fun qpDelta _ h9 => ?_
  refine (reads_ue hc).bind fun idc _ h10 => ?_
  refine (reads_deblockOffsets hc idc).bind fun offsets _ h11 => ?_
  refine (reads_pure _).mono fun header _ h12 => ?_
  obtain ⟨rfl, hfirst⟩ := h1
  obtain ⟨rfl, htype⟩ := h2
  obtain ⟨rfl, -⟩ := h3
  obtain ⟨hslice, rfl⟩ := h4
  obtain ⟨rfl, hframe⟩ := h5
  obtain ⟨rfl, hid⟩ := h6
  obtain ⟨noOutput, rfl, rfl⟩ := h7
  obtain ⟨longTerm, rfl, rfl⟩ := h8
  obtain ⟨rfl, hqp⟩ := h9
  obtain ⟨rfl, hidc⟩ := h10
  obtain ⟨rfl, hnone, hoffsets⟩ := h11
  obtain ⟨rfl, rfl⟩ := h12
  obtain ⟨hintra, rfl⟩ : sliceType % 5 = 2 ∧ ppsId = 0 := by omega
  refine ⟨⟨firstMb, sliceType, frameNum, idrPicId, noOutput, longTerm, qpDelta, idc, offsets⟩,
    ⟨hfirst, htype, hintra, hframe, hid, hqp, hidc, hnone, hoffsets⟩, rfl, ?_⟩
  simp [IdrSyntax.sourceBits, IdrSyntax.bits]

/-- **The bits of elements are read** as these elements. -/
theorem accepts_idrHeader (hc : CodesAsH264 crate)
    (hs : s.Fits) : Accepts (readIdrHeader crate) s.sourceBits s.header := by
  have hslice : ¬(s.sliceType % 5 ≠ 2 ∨ (0 : Nat) ≠ 0) := by
    have h := hs.intra
    omega
  refine ((accepts_ue hc hs.firstMb).bind <| (accepts_ue hc hs.sliceType).bind <|
    (accepts_ue (v := 0) hc (by omega)).bind <| (accepts_failIf _ hslice).bind <|
    (accepts_bits (by omega) hs.frameNum).bind <| (accepts_ue hc hs.idrPicId).bind <|
    (accepts_bit s.noOutputOfPriorPics).bind <| (accepts_bit s.longTermReference).bind <|
    (accepts_se hc hs.sliceQpDelta.1 hs.sliceQpDelta.2).bind <|
    (accepts_ue hc hs.disableDeblockingFilterIdc).bind <| (accepts_deblockOffsets hc hs).bind <|
    accepts_pure s.header).cast ?_
  simp [IdrSyntax.sourceBits, IdrSyntax.bits]

/-- **CarPlay reads** the same elements from the target. -/
theorem accepts_idrSemantics (hc : CodesAsH264 crate)
    (hs : s.Fits) : Accepts (IdrSemantics.parseBits crate) s.targetBits s.semantics := by
  have hframe : s.frameNum < 2 ^ 12 := by
    have h := hs.frameNum
    omega
  refine ((accepts_ue hc hs.firstMb).bind <| (accepts_ue hc hs.sliceType).bind <|
    (accepts_ue (v := 0) hc (by omega)).bind <| (accepts_bits (by omega) hframe).bind <|
    (accepts_ue hc hs.idrPicId).bind <|
    (accepts_bits (v := 0) (n := 13) (by omega) (by omega)).bind <|
    (accepts_bit s.noOutputOfPriorPics).bind <| (accepts_bit s.longTermReference).bind <|
    (accepts_se hc hs.sliceQpDelta.1 hs.sliceQpDelta.2).bind <|
    (accepts_ue hc hs.disableDeblockingFilterIdc).bind <| (accepts_deblockOffsets hc hs).bind <|
    accepts_pure s.semantics).cast ?_
  simp [IdrSyntax.targetBits, IdrSyntax.bits]

/-! ## Writing -/

theorem writes_deblockOffsets (hc : CodesAsH264 crate) {o : Option (Int × Int)}
    (ho : ∀ p, o = some p → (-2 ^ 31 < p.1 ∧ p.1 < 2 ^ 31) ∧ -2 ^ 31 < p.2 ∧ p.2 < 2 ^ 31) :
    Writes (writeDeblockOffsets crate o) (offsetBits o) := by
  cases o with
  | none => exact writes_pure
  | some p =>
    obtain ⟨halpha, hbeta⟩ := ho p rfl
    exact (writes_se hc halpha.1 halpha.2).bind (writes_se hc hbeta.1 hbeta.2)

theorem lt_of_fits {k : Int} (h : FitsI32 k) (hne : k ≠ -2 ^ 31) : -2 ^ 31 < k ∧ k < 2 ^ 31 := by
  unfold FitsI32 at h
  omega

/-- **What is written** are the bits of the same elements. -/
theorem writes_idrHeader (hc : CodesAsH264 crate)
    (hs : s.Fits) (hmin : ¬s.HasMin) : Writes (writeIdrHeader crate s.header) s.targetBits := by
  obtain ⟨hqpLo, hqpHi⟩ := lt_of_fits hs.sliceQpDelta fun h => hmin (.inl h)
  have hoffsets : ∀ p, s.deblockOffsets = some p →
      (-2 ^ 31 < p.1 ∧ p.1 < 2 ^ 31) ∧ -2 ^ 31 < p.2 ∧ p.2 < 2 ^ 31 := by
    intro p hp
    obtain ⟨h1, h2⟩ := hs.deblockOffsets p hp
    exact ⟨lt_of_fits h1 fun h => hmin (.inr ⟨p, hp, .inl h⟩),
      lt_of_fits h2 fun h => hmin (.inr ⟨p, hp, .inr h⟩)⟩
  have hchain : Writes (writeIdrHeader crate s.header) _ :=
    (writes_ue hc hs.firstMb).bind <| (writes_ue hc hs.sliceType).bind <|
    (writes_ue (v := 0) hc (by omega)).bind <| (writes_bits s.frameNum 12).bind <|
    (writes_ue hc hs.idrPicId).bind <| (writes_bits 0 13).bind <|
    (writes_bit s.noOutputOfPriorPics).bind <| (writes_bit s.longTermReference).bind <|
    (writes_se hc hqpLo hqpHi).bind <| (writes_ue hc hs.disableDeblockingFilterIdc).bind <|
    writes_deblockOffsets hc hoffsets
  apply hchain.cast
  simp only [IdrSyntax.targetBits, IdrSyntax.bits, IdrSyntax.header, List.append_assoc]

/-- `x` panics, whatever was written before. -/
def Panics (x : Write) : Prop := ∀ w before, Holds w before → x w = .error .panic

theorem Panics.bind {x : Write} (h : Panics x) (f : Unit → Write) : Panics (x >>= f) := by
  intro w before hold
  show (x w >>= fun out => f out.1 out.2) = _
  rw [h w before hold]
  rfl

theorem Writes.panics {x : Write} {l : List Bool} {f : Unit → Write} (hx : Writes x l)
    (hf : Panics (f ())) : Panics (x >>= f) := by
  intro w before hold
  obtain ⟨w', hw', hold'⟩ := hx w before hold
  show (x w >>= fun out => f out.1 out.2) = _
  rw [hw']
  exact hf w' _ hold'

theorem panics_se_min (crate : ExpGolomb) {k : Int} (h : k = -2 ^ 31) :
    Panics (BitWriter.se crate k) := by
  intro w _ _
  rw [h]
  exact se_min_panics crate w

theorem panics_deblockOffsets (hc : CodesAsH264 crate) {p : Int × Int}
    (hp : FitsI32 p.1) (hmin : p.1 = -2 ^ 31 ∨ p.2 = -2 ^ 31) :
    Panics (writeDeblockOffsets crate (some p)) := by
  by_cases halpha : p.1 = -2 ^ 31
  · exact (panics_se_min crate halpha).bind _
  · obtain ⟨hlo, hhi⟩ := lt_of_fits hp halpha
    exact (writes_se hc hlo hhi).panics (panics_se_min crate (hmin.resolve_left halpha))

/-- **The smallest `i32` overflows** while the header is written. -/
theorem writeIdrHeader_panics (hc : CodesAsH264 crate)
    (hs : s.Fits) (hmin : s.HasMin) : Panics (writeIdrHeader crate s.header) := by
  have hsigned : Panics (do
      BitWriter.se crate s.sliceQpDelta
      BitWriter.ue crate s.disableDeblockingFilterIdc
      writeDeblockOffsets crate s.deblockOffsets) := by
    by_cases hqp : s.sliceQpDelta = -2 ^ 31
    · exact (panics_se_min crate hqp).bind _
    · obtain ⟨p, hp, hmin⟩ := hmin.resolve_left hqp
      obtain ⟨hlo, hhi⟩ := lt_of_fits hs.sliceQpDelta hqp
      refine (writes_se hc hlo hhi).panics ?_
      refine (writes_ue hc hs.disableDeblockingFilterIdc).panics ?_
      rw [hp]
      exact panics_deblockOffsets hc (hs.deblockOffsets p hp).1 hmin
  exact (writes_ue hc hs.firstMb).panics <| (writes_ue hc hs.sliceType).panics <|
    (writes_ue (v := 0) hc (by omega)).panics <| (writes_bits _ 12).panics <|
    (writes_ue hc hs.idrPicId).panics <| (writes_bits 0 13).panics <|
    (writes_bit s.noOutputOfPriorPics).panics <|
    (writes_bit s.longTermReference).panics hsigned

end Catplay.Analysis.Fb
