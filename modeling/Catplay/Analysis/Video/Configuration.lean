import Catplay.Analysis.Video.ParameterSets
import Catplay.Library.Binary32

/-!
# A configuration that survives a hop

The writers check neither the counts nor the lengths that they cut to the width of a field, nor, for
H.264, the size of a length. A configuration that is written survives if and only if all of them
fit and, for HEVC, every unit is behind a long start code (`survivesHop_iff`).
-/

set_option autoImplicit false

namespace Catplay.Analysis.Video

open Catplay.Library Catplay.Model.Video

/-! ## Units behind their lengths -/

variable {nals : List (List UInt8)} {nalSizeLen : Nat} {sets : ParameterSets} {payload : List UInt8}
  {pieces : List Piece} {avcc : AvccConfig}

/-- **Units behind their lengths are read back.** -/
theorem readUnits_writeUnits (hnals : ∀ nal ∈ nals, nal.length < 2 ^ 16) (rest : List UInt8) :
    readUnits nals.length (writeUnits nals ++ rest) = some (joined started nals, rest) := by
  induction nals with
  | nil => rfl
  | cons nal nals ih =>
    have hih := ih fun other hmem => hnals other (List.mem_cons_of_mem _ hmem)
    have hlength : BigEndian.ofBytes (BigEndian.toBytes 2 nal.length) = nal.length :=
      BigEndian.ofBytes_toBytes (hnals nal List.mem_cons_self)
    have htwo : (BigEndian.toBytes 2 nal.length).length = 2 := BigEndian.length_toBytes 2 _
    obtain ⟨high, low, hbytes⟩ := List.length_eq_two.mp htwo
    rw [hbytes] at hlength
    have hwrite : writeUnits (nal :: nals) ++ rest =
        high :: low :: (nal ++ (writeUnits nals ++ rest)) := by
      unfold writeUnits
      rw [List.flatMap_cons, hbytes]
      simp only [List.cons_append, List.nil_append, List.append_assoc]
    rw [hwrite, List.length_cons, readUnits]
    dsimp only
    rw [hlength, if_neg (by rw [List.length_append]; omega), List.drop_left, List.take_left, hih,
      joined_cons]
    rfl

/-- **The arrays are read back**, one after the other; an empty one is not written. -/
theorem readArrays_appendArray (hcount : nals.length < 2 ^ 16)
    (hnals : ∀ nal ∈ nals, nal.length < 2 ^ 16) (nalType : UInt8) (count : Nat)
    (rest : List UInt8) :
    readArrays ((if nals.isEmpty then 0 else 1) + count) (appendArray nalType nals ++ rest) =
      (readArrays count rest).map fun more => joined started nals ++ more := by
  unfold appendArray
  cases hempty : nals.isEmpty with
  | true =>
    rw [List.isEmpty_iff.mp hempty]
    simp [joined]
  | false =>
    have hlength : BigEndian.ofBytes (BigEndian.toBytes 2 nals.length) = nals.length :=
      BigEndian.ofBytes_toBytes hcount
    have htwo : (BigEndian.toBytes 2 nals.length).length = 2 := BigEndian.length_toBytes 2 _
    obtain ⟨high, low, hbytes⟩ := List.length_eq_two.mp htwo
    rw [hbytes] at hlength
    rw [hbytes]
    simp only [Bool.false_eq_true, if_false, List.cons_append, List.nil_append]
    rw [Nat.add_comm, readArrays, hlength, readUnits_writeUnits hnals rest]
    cases hread : readArrays count rest <;> simp [hread]

/-! ## The records -/

/-- Every list as long as its count has room for, and every unit as its length has. -/
structure SetsFit (sets : ParameterSets) (most : ParameterSet → Nat) : Prop where
  vps : sets.vps.length ≤ most .vps
  sps : sets.sps.length ≤ most .sps
  pps : sets.pps.length ≤ most .pps
  units : ∀ nal ∈ sets.vps ++ sets.sps ++ sets.pps, nal.length ≤ 65535

/-- The longest lists: the counts have five and eight bits for H.264, and sixteen for HEVC. -/
def mostOf (hevc : Bool) : ParameterSet → Nat
  | .vps => 65535
  | .sps => if hevc then 65535 else 31
  | .pps => if hevc then 65535 else 255

/-- The sizes of a length that the record has a code for. -/
def SizeFits (hevc : Bool) (nalSizeLen : Nat) : Prop :=
  1 ≤ nalSizeLen ∧ nalSizeLen ≤ 4 ∧ (hevc = true → nalSizeLen ≠ 3)

theorem avccConfigDeserialize_cons (profile compat level lengthSize numOfSps : UInt8)
    (rest : List UInt8) :
    avccConfigDeserialize (1 :: profile :: compat :: level :: lengthSize :: numOfSps :: rest) =
      (readUnits (numOfSps &&& 0x1F).toNat rest).bind fun sps =>
        sps.2.head?.bind fun numOfPps =>
          (readUnits numOfPps.toNat (sps.2.drop 1)).bind fun pps =>
            some ⟨((lengthSize &&& 0x03) + 1).toNat, sps.1 ++ pps.1⟩ := rfl

theorem joined_append (code : List UInt8 → List UInt8) (nals more : List (List UInt8)) :
    joined code (nals ++ more) = joined code nals ++ joined code more := List.flatMap_append

/-- **The record for H.264 is read back.** -/
theorem avccConfigDeserialize_record (hsize : SizeFits false nalSizeLen)
    (hfit : SetsFit sets (mostOf false)) (profile compat level : UInt8) :
    avccConfigDeserialize
        ([1, profile, compat, level, 0xFC ||| .ofNat (nalSizeLen - 1),
            0xE0 ||| .ofNat sets.sps.length] ++
          writeUnits sets.sps ++ [.ofNat sets.pps.length] ++ writeUnits sets.pps) =
      some ⟨nalSizeLen, joined started (sets.sps ++ sets.pps)⟩ := by
  have hcount : ∀ n, n ≤ 31 → ((0xE0 ||| UInt8.ofNat n) &&& 0x1F).toNat = n := by decide
  have hlengthSize : ∀ n, n ≤ 4 → 1 ≤ n →
      (((0xFC ||| UInt8.ofNat (n - 1)) &&& 0x03) + 1).toNat = n := by decide
  have hsps : ∀ nal ∈ sets.sps, nal.length < 2 ^ 16 := fun nal hmem =>
    Nat.lt_succ_of_le (hfit.units nal (by simp [hmem]))
  have hpps : ∀ nal ∈ sets.pps, nal.length < 2 ^ 16 := fun nal hmem =>
    Nat.lt_succ_of_le (hfit.units nal (by simp [hmem]))
  have hppsCount : (UInt8.ofNat sets.pps.length).toNat = sets.pps.length :=
    UInt8.toNat_ofNat_of_lt' (Nat.lt_succ_of_le hfit.pps)
  have hread := readUnits_writeUnits hpps []
  rw [List.append_nil] at hread
  simp only [List.cons_append, List.nil_append, List.append_assoc]
  rw [avccConfigDeserialize_cons, hcount _ hfit.sps, readUnits_writeUnits hsps,
    hlengthSize _ hsize.2.1 hsize.1, Option.bind_some, List.head?_cons, Option.bind_some,
    List.drop_one, List.tail_cons, hppsCount, hread, Option.bind_some, joined_append]

/-- How long the record for HEVC is. -/
def arrayLength (nals : List (List UInt8)) : Nat :=
  if nals.isEmpty then 0 else 3 + (writeUnits nals).length

def hvccLength (sets : ParameterSets) : Nat :=
  23 + arrayLength sets.vps + arrayLength sets.sps + arrayLength sets.pps

theorem length_appendArray (nalType : UInt8) (nals : List (List UInt8)) :
    (appendArray nalType nals).length = arrayLength nals := by
  unfold appendArray arrayLength
  split
  · rfl
  · rw [List.length_append, List.length_append, BigEndian.length_toBytes]
    rfl

/-- **The arrays are read back**: all units, in the order of their kinds. -/
theorem readArrays_sets (hfit : SetsFit sets (mostOf true)) :
    readArrays sets.numArrays
        (appendArray 32 sets.vps ++ (appendArray 33 sets.sps ++ appendArray 34 sets.pps)) =
      some (joined started (sets.vps ++ sets.sps ++ sets.pps)) := by
  have hvps : ∀ nal ∈ sets.vps, nal.length < 2 ^ 16 := fun nal hmem =>
    Nat.lt_succ_of_le (hfit.units nal (by simp [hmem]))
  have hsps : ∀ nal ∈ sets.sps, nal.length < 2 ^ 16 := fun nal hmem =>
    Nat.lt_succ_of_le (hfit.units nal (by simp [hmem]))
  have hpps : ∀ nal ∈ sets.pps, nal.length < 2 ^ 16 := fun nal hmem =>
    Nat.lt_succ_of_le (hfit.units nal (by simp [hmem]))
  have hcount : sets.numArrays = (if sets.vps.isEmpty then 0 else 1) +
      ((if sets.sps.isEmpty then 0 else 1) + ((if sets.pps.isEmpty then 0 else 1) + 0)) := by
    unfold ParameterSets.numArrays
    simp only [List.filter_cons, List.filter_nil]
    cases sets.vps.isEmpty <;> cases sets.sps.isEmpty <;> cases sets.pps.isEmpty <;> rfl
  rw [hcount, readArrays_appendArray (Nat.lt_succ_of_le hfit.vps) hvps,
    readArrays_appendArray (Nat.lt_succ_of_le hfit.sps) hsps,
    ← List.append_nil (appendArray 34 sets.pps),
    readArrays_appendArray (Nat.lt_succ_of_le hfit.pps) hpps]
  simp only [readArrays, Option.map_some, joined_append, List.append_assoc, List.append_nil]

/-- The record for HEVC. -/
def hvccRecord (nalSizeLen : Nat) (sets : ParameterSets) : List UInt8 :=
  [0x01, 0x01, 0x00, 0x00, 0x00, 0x00, 0x00, 0x00, 0x00, 0x00, 0x00, 0x00, 0x00, 0xF0, 0x00, 0xFC,
      0xFD, 0xF8, 0xF8, 0x00, 0x00, 0x04 ||| .ofNat (nalSizeLen - 1), .ofNat sets.numArrays] ++
    appendArray 32 sets.vps ++ appendArray 33 sets.sps ++ appendArray 34 sets.pps

theorem length_hvccRecord (nalSizeLen : Nat) (sets : ParameterSets) :
    (hvccRecord nalSizeLen sets).length = hvccLength sets := by
  unfold hvccRecord hvccLength
  rw [List.length_append, List.length_append, List.length_append, length_appendArray,
    length_appendArray, length_appendArray]
  rfl

/-- **The record for HEVC is read back.** -/
theorem hvccConfigDeserialize_record
    (hsize : SizeFits true nalSizeLen) (hfit : SetsFit sets (mostOf true)) :
    hvccConfigDeserialize (hvccRecord nalSizeLen sets) =
      some ⟨nalSizeLen, joined started (sets.vps ++ sets.sps ++ sets.pps)⟩ := by
  have hlengthSize : ∀ n, n ≤ 4 → 1 ≤ n →
      (((0x04 ||| UInt8.ofNat (n - 1)) &&& 0x03) + 1).toNat = n := by decide
  have hcount : (UInt8.ofNat sets.numArrays).toNat = sets.numArrays := by
    apply UInt8.toNat_ofNat_of_lt'
    unfold ParameterSets.numArrays
    exact Nat.lt_of_le_of_lt (List.length_filter_le _ _) (show 3 < UInt8.size by decide)
  obtain ⟨hlow, hhigh, hthree⟩ := hsize
  have hne := hthree rfl
  have hlong : ¬((hvccRecord nalSizeLen sets).length < 23 ∨
      (hvccRecord nalSizeLen sets).head? ≠ some 1) := by
    rw [length_hvccRecord]
    unfold hvccLength
    rintro (hshort | hhead)
    · omega
    · exact hhead rfl
  have harrays : (hvccRecord nalSizeLen sets).drop 23 =
      appendArray 32 sets.vps ++ (appendArray 33 sets.sps ++ appendArray 34 sets.pps) := by
    unfold hvccRecord
    rw [List.append_assoc, List.append_assoc]
    rfl
  have hbyte : (hvccRecord nalSizeLen sets)[21]?.getD 0 = 0x04 ||| .ofNat (nalSizeLen - 1) := rfl
  have hnum : (hvccRecord nalSizeLen sets)[22]?.getD 0 = .ofNat sets.numArrays := rfl
  unfold hvccConfigDeserialize
  rw [if_neg hlong, hbyte, hnum, harrays, hlengthSize _ hhigh hlow, hcount, readArrays_sets hfit]
  dsimp only
  rw [if_neg (by omega)]
  rfl

/-! ## The sample entry -/

theorem length_imageDescriptionBase (idSize : Nat) (width height : UInt32) :
    (imageDescriptionBase idSize width height hvc1Tag).length = imageDescriptionBaseLen := by
  simp [imageDescriptionBase, hvc1Tag, imageDescriptionBaseLen]

theorem take_imageDescriptionBase (idSize : Nat) (width height : UInt32) (rest : List UInt8) :
    (imageDescriptionBase idSize width height hvc1Tag ++ rest).take 4 =
      BigEndian.toBytes 4 idSize := by
  unfold imageDescriptionBase
  simp only [List.append_assoc]
  exact List.take_left' (BigEndian.length_toBytes 4 idSize)

/-- The atom is the first one that is looked at. -/
theorem findConfigAtom_atom (h : payload.length + 8 < 2 ^ 32) (fuel : Nat) :
    findConfigAtom (fuel + 1)
        (BigEndian.toBytes 4 (payload.length + 8) ++ hvcCTag ++ payload) =
      some (hvcCTag, payload) := by
  have hfour : (BigEndian.toBytes 4 (payload.length + 8)).length = 4 :=
    BigEndian.length_toBytes 4 _
  have htag : hvcCTag.length = 4 := rfl
  have hsize : BigEndian.ofBytes (BigEndian.toBytes 4 (payload.length + 8)) = payload.length + 8 :=
    BigEndian.ofBytes_toBytes h
  have hlength : (BigEndian.toBytes 4 (payload.length + 8) ++ hvcCTag ++ payload).length =
      payload.length + 8 := by
    rw [List.length_append, List.length_append, hfour, htag]
    omega
  have hatomSize : (BigEndian.toBytes 4 (payload.length + 8) ++ hvcCTag ++ payload).take 4 =
      BigEndian.toBytes 4 (payload.length + 8) := by
    rw [List.append_assoc]
    exact List.take_left' hfour
  have hdropFour : (BigEndian.toBytes 4 (payload.length + 8) ++ hvcCTag ++ payload).drop 4 =
      hvcCTag ++ payload := by
    rw [List.append_assoc]
    exact List.drop_left' hfour
  have hdropEight : (BigEndian.toBytes 4 (payload.length + 8) ++ hvcCTag ++ payload).drop 8 =
      payload := by
    apply List.drop_left'
    rw [List.length_append, hfour, htag]
  unfold findConfigAtom
  dsimp only
  rw [hatomSize, hsize, hlength, if_neg (by omega), if_neg (by omega), hdropFour,
    List.take_left' htag, if_pos (.inr rfl), List.take_of_length_le (Nat.le_of_eq hlength),
    hdropEight]

/-- **The sample entry** is written if its size fits, and the record is found in it again. -/
theorem stsd_ok (h : payload.length + 94 < 2 ^ 32) (width height : UInt32) :
    ∃ stsd, hvccWriteStsdAtomFromOldFormatWithTags width height payload hvc1Tag hvcCTag =
        .ok stsd ∧ stsd ≠ [] ∧ hvccSampleEntryExtractCodecConfig stsd = some (hvcCTag, payload) := by
  have hbase : imageDescriptionBaseLen = 86 := rfl
  have hchild : (payload.length + 8) % 2 ^ 32 = payload.length + 8 := Nat.mod_eq_of_lt (by omega)
  have hid : (imageDescriptionBaseLen + payload.length + 8) % 2 ^ 32 = payload.length + 94 := by
    rw [hbase, Nat.mod_eq_of_lt (by omega)]
    omega
  set stsd := imageDescriptionBase (payload.length + 94) width height hvc1Tag ++
    (BigEndian.toBytes 4 (payload.length + 8) ++ hvcCTag ++ payload) with hstsd
  have hfront := length_imageDescriptionBase (payload.length + 94) width height
  have hlength : stsd.length = payload.length + 94 := by
    have htag : hvcCTag.length = 4 := rfl
    rw [hstsd, List.length_append, List.length_append, List.length_append, hfront,
      BigEndian.length_toBytes, htag, hbase]
    omega
  have hidSize : BigEndian.ofBytes (stsd.take 4) = payload.length + 94 := by
    rw [hstsd, take_imageDescriptionBase]
    exact BigEndian.ofBytes_toBytes h
  refine ⟨stsd, ?_, ?_, ?_⟩
  · unfold hvccWriteStsdAtomFromOldFormatWithTags
    dsimp only
    rw [hchild, hid, ← hstsd, if_pos hlength]
  · intro hnil
    rw [hnil] at hlength
    cases hlength
  · unfold hvccSampleEntryExtractCodecConfig
    dsimp only
    rw [hidSize, hlength, hbase, if_neg (by omega), Nat.min_self, if_neg (by omega),
      List.take_of_length_le (Nat.le_of_eq hlength), hstsd, List.drop_left' (hfront.trans hbase)]
    exact findConfigAtom_atom (by omega) _

/-- **A sample entry of 4 GiB or more** is not written. -/
theorem stsd_panic (h : 2 ^ 32 ≤ payload.length + 94) (width height : UInt32) :
    hvccWriteStsdAtomFromOldFormatWithTags width height payload hvc1Tag hvcCTag =
      .error .panic := by
  unfold hvccWriteStsdAtomFromOldFormatWithTags
  dsimp only
  rw [if_neg]
  intro heq
  have hlt := Nat.mod_lt (imageDescriptionBaseLen + payload.length + 8) (Nat.two_pow_pos 32)
  rw [← heq, List.length_append, List.length_append, length_imageDescriptionBase] at hlt
  have hbase : imageDescriptionBaseLen = 86 := rfl
  rw [List.length_append, BigEndian.length_toBytes] at hlt
  have htag : hvcCTag.length = 4 := rfl
  omega

/-! ## The header of the frame -/

theorem floorOfLeBytes_toBytes {a : UInt32} (ha : a.toNat < 2 ^ 24) :
    floorOfLeBytes (LittleEndian.toBytes 4 a.toFloat32.toBits.toNat) = a := by
  unfold floorOfLeBytes
  rw [LittleEndian.ofBytes_toBytes (UInt32.toNat_lt _), UInt32.ofNat_toNat]
  exact Binary32.toUInt32_ofBits a ha

/-- **Sizes below 2^24** pass through the header. -/
theorem asF32Floor_fromF32Floor {a b : UInt32} (ha : a.toNat < 2 ^ 24) (hb : b.toNat < 2 ^ 24) :
    asF32Floor (fromF32Floor a b) = (a, b) := by
  have hlength : (LittleEndian.toBytes 4 a.toFloat32.toBits.toNat ++
      LittleEndian.toBytes 4 b.toFloat32.toBits.toNat).length = 8 := by
    rw [List.length_append, LittleEndian.length_toBytes, LittleEndian.length_toBytes]
  have hbytes : (fromF32Floor a b).toList = LittleEndian.toBytes 4 a.toFloat32.toBits.toNat ++
      LittleEndian.toBytes 4 b.toFloat32.toBits.toNat := by
    unfold fromF32Floor
    generalize LittleEndian.toBytes 4 a.toFloat32.toBits.toNat ++
      LittleEndian.toBytes 4 b.toFloat32.toBits.toNat = bytes at hlength
    apply List.ext_getElem
    · rw [Vector.length_toList, hlength]
    · intro i hi hi'
      rw [Vector.getElem_toList, Vector.getElem_ofFn, List.getElem?_eq_getElem hi']
      rfl
  unfold asF32Floor
  rw [hbytes, List.take_left' (LittleEndian.length_toBytes 4 _),
    List.drop_left' (LittleEndian.length_toBytes 4 _), floorOfLeBytes_toBytes ha,
    floorOfLeBytes_toBytes hb]

/-- The flags without that of a format description. -/
def plainFlags (respectTimestamps : Bool) : UInt8 :=
  ScreenFlag.encrypted.bits |||
    if respectTimestamps then ScreenFlag.respectTimestamps.bits else 0

theorem hasFlag_ofConfig (c : AvccConfigExtended) (flags : UInt8) (data : List UInt8)
    (flag : ScreenFlag) :
    (BufferedFrame.ofConfig c flags data).hasFlag flag = decide (flags &&& flag.bits = flag.bits) := by
  unfold BufferedFrame.hasFlag BufferedFrame.ofConfig
  dsimp only
  rw [Vector.getElem_set_self]

theorem size_ofConfig {c : AvccConfigExtended} (hwidth : c.width.toNat < 2 ^ 24)
    (hheight : c.height.toNat < 2 ^ 24) (flags : UInt8) (data : List UInt8) :
    asF32Floor (BufferedFrame.ofConfig c flags data).header.params[1] = (c.width, c.height) := by
  unfold BufferedFrame.ofConfig
  dsimp only
  rw [Vector.getElem_set_self, asF32Floor_fromF32Floor hwidth hheight]

section Decode

variable {c : AvccConfigExtended} (hwidth : c.width.toNat < 2 ^ 24)
  (hheight : c.height.toNat < 2 ^ 24)

include hwidth hheight

theorem configDecode_ofConfig (flags : UInt8) (data : List UInt8) (videoLatency : Nat) :
    (BufferedFrame.ofConfig c flags data).configDecode videoLatency =
      (BufferedFrame.ofConfig c flags data).decodeData.map fun record =>
        ⟨record.2, record.1, videoLatency, c.width, c.height,
          (BufferedFrame.ofConfig c flags data).hasFlag .respectTimestamps⟩ := by
  unfold BufferedFrame.configDecode
  rw [size_ofConfig hwidth hheight]
  cases (BufferedFrame.ofConfig c flags data).decodeData <;> rfl

/-- **A frame without a format description** holds a record for H.264. -/
theorem configDecode_plain (data : List UInt8) (videoLatency : Nat) :
    (BufferedFrame.ofConfig c (plainFlags c.respectTimestamps) data).configDecode videoLatency =
      (avccConfigDeserialize data).map fun avcc =>
        ⟨false, avcc, videoLatency, c.width, c.height, c.respectTimestamps⟩ := by
  have hformat : (BufferedFrame.ofConfig c (plainFlags c.respectTimestamps) data).hasFlag
      .useFormatDescription = false := by
    rw [hasFlag_ofConfig]
    cases c.respectTimestamps <;> decide
  have hrespect : (BufferedFrame.ofConfig c (plainFlags c.respectTimestamps) data).hasFlag
      .respectTimestamps = c.respectTimestamps := by
    rw [hasFlag_ofConfig]
    cases c.respectTimestamps <;> decide
  have hdata : (BufferedFrame.ofConfig c (plainFlags c.respectTimestamps) data).data = data := rfl
  rw [configDecode_ofConfig hwidth hheight, hrespect]
  unfold BufferedFrame.decodeData
  rw [hformat, hdata, if_neg Bool.false_ne_true, Option.map_map]
  rfl

/-- **A sample entry for HEVC** holds a record for HEVC. -/
theorem configDecode_described {data payload : List UInt8}
    (hextract : hvccSampleEntryExtractCodecConfig data = some (hvcCTag, payload))
    (videoLatency : Nat) :
    (BufferedFrame.ofConfig c
        (plainFlags c.respectTimestamps ||| ScreenFlag.useFormatDescription.bits) data).configDecode
        videoLatency =
      (hvccConfigDeserialize payload).map fun hvcc =>
        ⟨true, ⟨hvcc.nalSizeLen, hvcc.vpsSpsPps⟩, videoLatency, c.width, c.height,
          c.respectTimestamps⟩ := by
  set flags := plainFlags c.respectTimestamps ||| ScreenFlag.useFormatDescription.bits with hflags
  have hformat : (BufferedFrame.ofConfig c flags data).hasFlag .useFormatDescription = true := by
    rw [hasFlag_ofConfig, hflags]
    cases c.respectTimestamps <;> decide
  have hrespect : (BufferedFrame.ofConfig c flags data).hasFlag .respectTimestamps =
      c.respectTimestamps := by
    rw [hasFlag_ofConfig, hflags]
    cases c.respectTimestamps <;> decide
  have hdata : (BufferedFrame.ofConfig c flags data).data = data := rfl
  have htags : ¬ hvcCTag = avcCTag := by decide
  rw [configDecode_ofConfig hwidth hheight, hrespect]
  unfold BufferedFrame.decodeData
  rw [hformat, hdata, if_pos rfl, hextract, Option.bind_eq_bind, Option.bind_some]
  dsimp only
  rw [if_neg htags, if_pos rfl, Option.map_map]
  rfl

end Decode

/-! ## What survives -/

/-- The parameter sets of a codec. -/
def parameterSetOf (hevc : Bool) : UInt8 → Option ParameterSet :=
  if hevc then HevcNalType.parameterSet else NalType.parameterSet

/-- A configuration of parameter sets without start codes inside. -/
structure HasUnits (c : AvccConfigExtended) (pieces : List Piece) : Prop where
  bytes : c.avcc.spsPps = bytesOf pieces
  embedless : ∀ piece ∈ pieces, Embedless piece.nal
  separate : pieces.IsChain Separate
  kinds : ∀ piece ∈ pieces, (piece.nal.head?.bind (parameterSetOf c.hevc)).isSome
  width : c.width.toNat < 2 ^ 24
  height : c.height.toNat < 2 ^ 24

/-- The lists that the writer finds. -/
def writtenSets (c : AvccConfigExtended) : ParameterSets :=
  if c.hevc then hvccParameterSets c.avcc.spsPps else avccParameterSets c.avcc.spsPps

/-- The same configuration, with the same units of every kind in the same order. -/
structure Survives (c : AvccConfigExtended) (pieces : List Piece) (c' : AvccConfigExtended) :
    Prop where
  hevc : c'.hevc = c.hevc
  nalSizeLen : c'.avcc.nalSizeLen = c.avcc.nalSizeLen
  width : c'.width = c.width
  height : c'.height = c.height
  respectTimestamps : c'.respectTimestamps = c.respectTimestamps
  units : ∃ nals, c'.avcc.spsPps = joined started nals ∧ (∀ nal ∈ nals, Embedless nal) ∧
    ∀ kind, unitsOf (parameterSetOf c.hevc) kind nals =
      unitsOf (parameterSetOf c.hevc) kind (pieces.map (·.nal))

/-- Writing does not panic, a record is written only for numbers that fit its fields, and what is
read back is the same. -/
def SurvivesHop (c : AvccConfigExtended) (pieces : List Piece) (videoLatency : Nat) : Prop :=
  ∃ frame, BufferedFrame.config c = .ok frame ∧
    (frame.data ≠ [] → SizeFits c.hevc c.avcc.nalSizeLen ∧ SetsFit (writtenSets c) (mostOf c.hevc)) ∧
    ∀ c', frame.configDecode videoLatency = some c' → Survives c pieces c'

/-- The lists of the units. -/
def setsOf (hevc : Bool) (nals : List (List UInt8)) : ParameterSets :=
  ⟨unitsOf (parameterSetOf hevc) .vps nals, unitsOf (parameterSetOf hevc) .sps nals,
    unitsOf (parameterSetOf hevc) .pps nals⟩

/-- Nothing is written: for H.264 the first SPS is missing or shorter than four bytes, and for HEVC
the size of a length has no code or no SPS or no PPS is behind a long start code. -/
def Unwritten (c : AvccConfigExtended) (pieces : List Piece) : Prop :=
  if c.hevc then
    ¬SizeFits true c.avcc.nalSizeLen ∨
      ∃ kind, (kind = .sps ∨ kind = .pps) ∧ ∀ piece ∈ pieces, piece.wide = true →
        piece.nal.head?.bind HevcNalType.parameterSet ≠ some kind
  else
    ∀ nal ∈ (unitsOf NalType.parameterSet .sps (pieces.map (·.nal))).head?, nal.length < 4

/-- All that is written fits; for HEVC every unit is behind a long start code. -/
structure AllFit (c : AvccConfigExtended) (pieces : List Piece) : Prop where
  size : SizeFits c.hevc c.avcc.nalSizeLen
  sets : SetsFit (setsOf c.hevc (pieces.map (·.nal))) (mostOf c.hevc)
  wide : c.hevc = true → ∀ piece ∈ pieces, piece.wide = true
  record : c.hevc = true → hvccLength (setsOf true (pieces.map (·.nal))) + 94 < 2 ^ 32

section Units

variable {parameterSet : UInt8 → Option ParameterSet}

theorem unitsOf_append (kind : ParameterSet) (nals more : List (List UInt8)) :
    unitsOf parameterSet kind (nals ++ more) =
      unitsOf parameterSet kind nals ++ unitsOf parameterSet kind more := List.filter_append ..

theorem unitsOf_unitsOf (kind other : ParameterSet) (nals : List (List UInt8)) :
    unitsOf parameterSet kind (unitsOf parameterSet other nals) =
      if kind = other then unitsOf parameterSet kind nals else [] := by
  unfold unitsOf
  rw [List.filter_filter]
  split
  · rename_i heq
    rw [heq]
    simp only [Bool.and_self]
  · rename_i hne
    rw [List.filter_eq_nil_iff]
    intro nal _ hboth
    simp only [Bool.and_eq_true, decide_eq_true_eq] at hboth
    exact hne (Option.some.inj (hboth.1.symm.trans hboth.2))

end Units

/-- **The lists one after the other** hold the same units of each kind. -/
theorem unitsOf_setsOf {hevc : Bool} (kind : ParameterSet) :
    unitsOf (parameterSetOf hevc) kind ((setsOf hevc nals).vps ++ (setsOf hevc nals).sps ++
      (setsOf hevc nals).pps) = unitsOf (parameterSetOf hevc) kind nals := by
  unfold setsOf
  rw [unitsOf_append, unitsOf_append, unitsOf_unitsOf, unitsOf_unitsOf, unitsOf_unitsOf]
  cases kind <;> simp

theorem mem_setsOf {hevc : Bool} {nal : List UInt8}
    (h : nal ∈ (setsOf hevc nals).vps ++ (setsOf hevc nals).sps ++ (setsOf hevc nals).pps) :
    nal ∈ nals := by
  unfold setsOf at h
  simp only [List.mem_append, mem_unitsOf] at h
  tauto

theorem HasUnits.embedless_nal {c : AvccConfigExtended}
    (h : HasUnits c pieces) : ∀ nal ∈ pieces.map (·.nal), Embedless nal := by
  intro nal hmem
  obtain ⟨piece, hpiece, rfl⟩ := List.mem_map.mp hmem
  exact h.embedless piece hpiece

/-- The units that are read back, when they are written as they are. -/
theorem HasUnits.read_back {c : AvccConfigExtended} (h : HasUnits c pieces) :
    let sets := setsOf c.hevc (pieces.map (·.nal))
    (∀ nal ∈ sets.vps ++ sets.sps ++ sets.pps, Embedless nal) ∧
      ∀ kind, unitsOf (parameterSetOf c.hevc) kind (sets.vps ++ sets.sps ++ sets.pps) =
        unitsOf (parameterSetOf c.hevc) kind (pieces.map (·.nal)) :=
  ⟨fun nal hmem => h.embedless_nal nal (mem_setsOf hmem), fun kind => unitsOf_setsOf kind⟩

/-! ### H.264 -/

theorem avccParameterSets_eq {c : AvccConfigExtended} (h : HasUnits c pieces) :
    avccParameterSets c.avcc.spsPps = setsOf false (pieces.map (·.nal)) := by
  rw [h.bytes, avccParameterSets_bytes h.embedless h.separate, pushAll_eq]
  rfl

/-- There is no VPS in H.264. -/
theorem vps_avcc (nals : List (List UInt8)) : (setsOf false nals).vps = [] := by
  unfold setsOf unitsOf
  rw [List.filter_eq_nil_iff]
  intro nal _ hkind
  rw [decide_eq_true_eq, Option.bind_eq_some_iff] at hkind
  obtain ⟨byte, -, hbyte⟩ := hkind
  have hno : parameterSetOf false byte ≠ some .vps := by
    show NalType.parameterSet byte ≠ _
    unfold NalType.parameterSet
    dsimp only
    split
    · simp
    · split <;> simp
  exact hno hbyte

/-- The record for H.264. -/
def avccRecord (nalSizeLen : Nat) (sets : ParameterSets) (profile compat level : UInt8) :
    List UInt8 :=
  [1, profile, compat, level, 0xFC ||| .ofNat (nalSizeLen - 1), 0xE0 ||| .ofNat sets.sps.length] ++
    writeUnits sets.sps ++ [.ofNat sets.pps.length] ++ writeUnits sets.pps

theorem avccConfigSerialize_short
    (hshort : ∀ nal ∈ (avccParameterSets avcc.spsPps).sps.head?, nal.length < 4) :
    avccConfigSerialize avcc = .ok none := by
  unfold avccConfigSerialize
  dsimp only
  split
  · rename_i profile compat level rest hhead
    have hlength := hshort _ hhead
    simp only [List.length_cons] at hlength
    omega
  · rfl

theorem avccConfigSerialize_long
    (hlong : ¬∀ nal ∈ (avccParameterSets avcc.spsPps).sps.head?, nal.length < 4) :
    if avcc.nalSizeLen = 0 then avccConfigSerialize avcc = .error .panic
    else ∃ profile compat level, avccConfigSerialize avcc =
      .ok (some (avccRecord avcc.nalSizeLen (avccParameterSets avcc.spsPps) profile compat level))
    := by
  simp only [not_forall] at hlong
  obtain ⟨nal, hhead, hlength⟩ := hlong
  obtain ⟨first, profile, compat, level, rest, rfl⟩ :
      ∃ first profile compat level rest, nal = first :: profile :: compat :: level :: rest := by
    match nal, hlength with
    | first :: profile :: compat :: level :: rest, _ =>
      exact ⟨first, profile, compat, level, rest, rfl⟩
    | [], hlength | [_], hlength | [_, _], hlength | [_, _, _], hlength => simp at hlength
  unfold avccConfigSerialize
  dsimp only
  rw [Option.mem_def.mp hhead]
  dsimp only
  split
  · rfl
  · exact ⟨profile, compat, level, rfl⟩

/-- **What H.264 writes.** -/
theorem config_avcc {c : AvccConfigExtended} (hevc : c.hevc = false) :
    BufferedFrame.config c =
      (avccConfigSerialize c.avcc).map fun data =>
        .ofConfig c (plainFlags c.respectTimestamps) (data.getD []) := by
  unfold BufferedFrame.config
  rw [hevc]
  cases avccConfigSerialize c.avcc <;> rfl

theorem survivesHop_avcc {c : AvccConfigExtended} (h : HasUnits c pieces)
    (hevc : c.hevc = false) (videoLatency : Nat) :
    SurvivesHop c pieces videoLatency ↔ Unwritten c pieces ∨ AllFit c pieces := by
  have hsets := avccParameterSets_eq h
  have hwritten : writtenSets c = setsOf false (pieces.map (·.nal)) := by
    unfold writtenSets
    rw [hevc, if_neg Bool.false_ne_true, hsets]
  have hunwritten : Unwritten c pieces ↔
      ∀ nal ∈ (avccParameterSets c.avcc.spsPps).sps.head?, nal.length < 4 := by
    unfold Unwritten
    rw [hevc, if_neg Bool.false_ne_true, hsets]
    rfl
  have hallFit : AllFit c pieces ↔ SizeFits false c.avcc.nalSizeLen ∧
      SetsFit (setsOf false (pieces.map (·.nal))) (mostOf false) := by
    constructor
    · rintro ⟨hsize, hfit, -, -⟩
      rw [hevc] at hsize hfit
      exact ⟨hsize, hfit⟩
    · rintro ⟨hsize, hfit⟩
      refine ⟨?_, ?_, ?_, ?_⟩
      · rw [hevc]
        exact hsize
      · rw [hevc]
        exact hfit
      · rw [hevc]
        exact fun hfalse => nomatch hfalse
      · rw [hevc]
        exact fun hfalse => nomatch hfalse
  unfold SurvivesHop
  rw [config_avcc hevc, hunwritten, hallFit, hevc, hwritten]
  by_cases hshort : ∀ nal ∈ (avccParameterSets c.avcc.spsPps).sps.head?, nal.length < 4
  · rw [avccConfigSerialize_short hshort]
    refine ⟨fun _ => .inl hshort, fun _ => ⟨_, rfl, fun hdata => absurd rfl hdata, ?_⟩⟩
    intro c' hdecode
    rw [configDecode_plain h.width h.height] at hdecode
    cases hdecode
  · have hlong := avccConfigSerialize_long hshort
    split at hlong
    · rename_i hzero
      rw [hlong]
      constructor
      · rintro ⟨frame, hframe, -⟩
        cases hframe
      · rintro (hleft | ⟨hsize, -⟩)
        · exact absurd hleft hshort
        · have hone := hsize.1
          omega
    · obtain ⟨profile, compat, level, hserialize⟩ := hlong
      rw [hsets] at hshort
      rw [hserialize, hsets]
      constructor
      · rintro ⟨frame, hframe, hfit, -⟩
        obtain rfl := Except.ok.inj hframe
        exact .inr (hfit (List.cons_ne_nil _ _))
      · rintro (hleft | ⟨hsize, hfit⟩)
        · exact absurd hleft hshort
        · refine ⟨_, rfl, fun _ => ⟨hsize, hfit⟩, ?_⟩
          intro c' hdecode
          rw [configDecode_plain h.width h.height, Option.getD_some, avccRecord,
            avccConfigDeserialize_record hsize hfit] at hdecode
          obtain rfl := Option.some.inj hdecode
          have hread := h.read_back
          rw [hevc] at hread
          dsimp only at hread
          rw [vps_avcc, List.nil_append] at hread
          refine ⟨hevc.symm, rfl, rfl, rfl, rfl, _, rfl, hread.1, ?_⟩
          rw [hevc]
          exact hread.2

/-! ### HEVC -/

/-- **Units without start codes** are found again, so there is one way to read a buffer. -/
theorem joined_started_inj {others : List (List UInt8)} (hnals : ∀ nal ∈ nals, StartCodeFree nal)
    (hothers : ∀ nal ∈ others, StartCodeFree nal)
    (h : joined started nals = joined started others) : nals = others := by
  have hfirst := @collect_annexB [] nals hnals (nals.length + others.length + 1) (by omega)
  have hsecond := @collect_annexB [] others hothers (nals.length + others.length + 1) (by omega)
  rw [List.nil_append] at hfirst hsecond
  rw [h, hsecond] at hfirst
  have hunits : unitsAt 4 0 others = unitsAt 4 0 nals :=
    Except.ok.inj (Option.some.inj hfirst)
  have hback := payloads_joined length_started [] nals
  have hback' := payloads_joined length_started [] others
  rw [List.nil_append] at hback hback'
  rw [← hback, ← hback', h]
  exact congrArg _ hunits.symm

theorem hvccParameterSets_eq {c : AvccConfigExtended} (h : HasUnits c pieces) :
    hvccParameterSets c.avcc.spsPps = setsOf true (chunks pieces) := by
  rw [h.bytes, hvccParameterSets_bytes h.embedless h.separate, pushAll_eq]
  rfl

theorem sizeFits_hevc :
    SizeFits true nalSizeLen ↔ nalSizeLen = 1 ∨ nalSizeLen = 2 ∨ nalSizeLen = 4 := by
  unfold SizeFits
  constructor
  · rintro ⟨hlow, hhigh, hthree⟩
    have hne := hthree rfl
    omega
  · intro h
    exact ⟨by omega, by omega, fun _ => by omega⟩

theorem hvccConfigSerialize_none
    (h : ¬SizeFits true avcc.nalSizeLen ∨ (hvccParameterSets avcc.spsPps).sps = [] ∨
      (hvccParameterSets avcc.spsPps).pps = []) : hvccConfigSerialize avcc = none := by
  rw [sizeFits_hevc, ← List.isEmpty_iff, ← List.isEmpty_iff] at h
  unfold hvccConfigSerialize
  dsimp only
  split
  · rfl
  · rename_i hsize
    rw [if_pos (h.resolve_left fun hno => hsize hno)]

theorem hvccConfigSerialize_some
    (h : ¬(¬SizeFits true avcc.nalSizeLen ∨ (hvccParameterSets avcc.spsPps).sps = [] ∨
      (hvccParameterSets avcc.spsPps).pps = [])) :
    hvccConfigSerialize avcc =
      some (hvccRecord avcc.nalSizeLen (hvccParameterSets avcc.spsPps)) := by
  rw [sizeFits_hevc, ← List.isEmpty_iff, ← List.isEmpty_iff] at h
  obtain ⟨hsize, hlists⟩ := not_or.mp h
  unfold hvccConfigSerialize
  dsimp only
  rw [if_neg hsize, if_neg hlists]
  rfl

/-- **What HEVC writes.** -/
theorem config_hevc {c : AvccConfigExtended} (hevc : c.hevc = true) :
    BufferedFrame.config c =
      match hvccConfigSerialize c.avcc with
      | some hvcc =>
        (hvccWriteStsdAtomFromOldFormatWithTags c.width c.height hvcc hvc1Tag hvcCTag).map fun stsd =>
          .ofConfig c (plainFlags c.respectTimestamps ||| ScreenFlag.useFormatDescription.bits) stsd
      | none => .ok (.ofConfig c (plainFlags c.respectTimestamps) []) := by
  unfold BufferedFrame.config
  rw [hevc]
  cases hvccConfigSerialize c.avcc with
  | none => rfl
  | some hvcc =>
    dsimp only
    rw [if_pos rfl]
    cases hvccWriteStsdAtomFromOldFormatWithTags c.width c.height hvcc hvc1Tag hvcCTag <;> rfl

/-- **As many units as before** leave no unit behind a short start code. -/
theorem HasUnits.wide {c : AvccConfigExtended} (h : HasUnits c pieces)
    (hevc : c.hevc = true)
    (hunits : ∀ kind, unitsOf (parameterSetOf true) kind (chunks pieces) =
      unitsOf (parameterSetOf true) kind (pieces.map (·.nal))) :
    ∀ piece ∈ pieces, piece.wide = true := by
  have hkinds := h.kinds
  rw [hevc] at hkinds
  have hall : ((pieces.map (·.nal)).filter fun nal =>
      (nal.head?.bind (parameterSetOf true)).isSome).length = pieces.length := by
    rw [List.filter_eq_self.mpr, List.length_map]
    intro nal hmem
    obtain ⟨piece, hpiece, rfl⟩ := List.mem_map.mp hmem
    exact hkinds piece hpiece
  have hsome : ((chunks pieces).filter fun nal =>
      (nal.head?.bind (parameterSetOf true)).isSome).length ≤ (chunks pieces).length :=
    List.length_filter_le _ _
  rw [← length_unitsOf_add, hunits, hunits, hunits, length_unitsOf_add, hall, length_chunks]
    at hsome
  have hlength := Nat.le_antisymm (List.length_filter_le _ _) hsome
  exact fun piece hpiece => List.length_filter_eq_length_iff.mp hlength piece hpiece

theorem survivesHop_hevc {c : AvccConfigExtended} (h : HasUnits c pieces)
    (hevc : c.hevc = true) (videoLatency : Nat) :
    SurvivesHop c pieces videoLatency ↔ Unwritten c pieces ∨ AllFit c pieces := by
  have hkinds := h.kinds
  rw [hevc] at hkinds
  have hsets := hvccParameterSets_eq h
  have hwritten : writtenSets c = setsOf true (chunks pieces) := by
    unfold writtenSets
    rw [hevc, if_pos rfl, hsets]
  have hunwritten : Unwritten c pieces ↔ ¬SizeFits true c.avcc.nalSizeLen ∨
      (hvccParameterSets c.avcc.spsPps).sps = [] ∨ (hvccParameterSets c.avcc.spsPps).pps = [] := by
    have hsps := unitsOf_chunks_eq_nil hkinds .sps
    have hpps := unitsOf_chunks_eq_nil hkinds .pps
    unfold Unwritten
    rw [hevc, if_pos rfl, hsets]
    unfold setsOf
    dsimp only
    rw [hsps, hpps]
    simp only [or_and_right, exists_or, exists_eq_left]
    rfl
  unfold SurvivesHop
  rw [config_hevc hevc, hunwritten, hevc, hwritten]
  by_cases hnone : ¬SizeFits true c.avcc.nalSizeLen ∨ (hvccParameterSets c.avcc.spsPps).sps = [] ∨
      (hvccParameterSets c.avcc.spsPps).pps = []
  · rw [hvccConfigSerialize_none hnone]
    refine ⟨fun _ => .inl hnone, fun _ => ⟨_, rfl, fun hdata => absurd rfl hdata, ?_⟩⟩
    intro c' hdecode
    rw [configDecode_plain h.width h.height] at hdecode
    cases hdecode
  · rw [hvccConfigSerialize_some hnone]
    dsimp only
    by_cases hroom : (hvccRecord c.avcc.nalSizeLen (hvccParameterSets c.avcc.spsPps)).length + 94 <
        2 ^ 32
    · obtain ⟨stsd, hstsd, hne, hextract⟩ := stsd_ok hroom c.width c.height
      have hdecode := configDecode_described h.width h.height hextract videoLatency
      rw [length_hvccRecord, hsets] at hroom
      rw [hstsd]
      rw [hsets] at hnone hdecode
      constructor
      · rintro ⟨frame, hframe, hfits, hsurvives⟩
        obtain rfl := Except.ok.inj hframe
        obtain ⟨hsize, hfit⟩ := hfits hne
        rw [hvccConfigDeserialize_record hsize hfit] at hdecode
        obtain ⟨nals, hbytes, hfree, hunits⟩ := (hsurvives _ hdecode).units
        have hnals := joined_started_inj
          (fun nal hmem => chunks_free h.embedless h.separate nal (mem_setsOf hmem))
          (fun nal hmem => (hfree nal hmem).startCodeFree) hbytes
        rw [hevc, ← hnals] at hunits
        have hwide := h.wide hevc fun kind => (unitsOf_setsOf kind).symm.trans (hunits kind)
        rw [chunks_of_wide hwide] at hfit hroom
        refine .inr ⟨?_, ?_, fun _ => hwide, fun _ => hroom⟩
        · rw [hevc]
          exact hsize
        · rw [hevc]
          exact hfit
      · rintro (hleft | hfit)
        · rw [hsets] at hleft
          exact absurd hleft hnone
        · obtain ⟨hsize, hsetsFit, hwide, -⟩ := hfit
          have hread := h.read_back
          rw [hevc] at hsize hsetsFit hread
          rw [chunks_of_wide (hwide hevc)] at hdecode ⊢
          rw [hvccConfigDeserialize_record hsize hsetsFit] at hdecode
          refine ⟨_, rfl, fun _ => ⟨hsize, hsetsFit⟩, ?_⟩
          intro c' hc'
          obtain rfl := Option.some.inj (hdecode.symm.trans hc')
          refine ⟨hevc.symm, rfl, rfl, rfl, rfl, _, rfl, hread.1, ?_⟩
          rw [hevc]
          exact hread.2
    · rw [stsd_panic (Nat.le_of_not_lt hroom)]
      constructor
      · rintro ⟨frame, hframe, -⟩
        cases hframe
      · rintro (hleft | hfit)
        · exact absurd hleft hnone
        · apply absurd _ hroom
          rw [length_hvccRecord, hsets, chunks_of_wide (hfit.wide hevc)]
          exact hfit.record hevc

/-- **A configuration survives a hop** if and only if nothing is written of it or all of it fits. -/
theorem survivesHop_iff {c : AvccConfigExtended} {pieces : List Piece} (h : HasUnits c pieces)
    (videoLatency : Nat) :
    SurvivesHop c pieces videoLatency ↔ Unwritten c pieces ∨ AllFit c pieces := by
  cases hevc : c.hevc with
  | true => exact survivesHop_hevc h hevc videoLatency
  | false => exact survivesHop_avcc h hevc videoLatency

/-- One SPS and one PPS, for H.264. -/
def baselineUnits : List Piece :=
  [⟨true, [0x67, 0x42, 0xE0, 0x1E, 0x89, 0x8B]⟩, ⟨true, [0x68, 0xCE]⟩]

def baseline : AvccConfigExtended :=
  ⟨false, ⟨4, bytesOf baselineUnits⟩, 0, 1920, 1080, true⟩

/-- A configuration of one SPS and one PPS survives. -/
theorem survivesHop_iff_baseline : SurvivesHop baseline baselineUnits 0 := by
  have hunits : HasUnits baseline baselineUnits := by
    refine ⟨rfl, ?_, isChain_of_wide ?_, ?_, by decide, by decide⟩
    · unfold Embedless
      decide
    · decide
    · decide
  apply (survivesHop_iff hunits 0).mpr
  refine .inr ⟨?_, ⟨?_, ?_, ?_, ?_⟩, (fun h => nomatch h), (fun h => nomatch h)⟩
  · unfold SizeFits
    decide
  · decide
  · decide
  · decide
  · decide

/-- The same SPS 32 times, for H.264. -/
def manySpsUnits : List Piece := List.replicate 32 ⟨true, [0x67, 0x42, 0xE0, 0x1E]⟩

def manySps : AvccConfigExtended :=
  ⟨false, ⟨4, bytesOf manySpsUnits⟩, 0, 1920, 1080, true⟩

example : (BufferedFrame.config manySps).toOption.bind (·.configDecode 0) =
    some { manySps with avcc := ⟨4, []⟩ } := by
  decide +kernel

/-- **32 SPS are written with a count of zero**, and nothing of them is read back. -/
theorem many_sps_lost : HasUnits manySps manySpsUnits ∧ ¬SurvivesHop manySps manySpsUnits 0 := by
  have hall : ∀ piece ∈ manySpsUnits, piece = ⟨true, [0x67, 0x42, 0xE0, 0x1E]⟩ :=
    fun piece hmem => (List.mem_replicate.mp hmem).2
  have hunits : HasUnits manySps manySpsUnits := by
    refine ⟨rfl, ?_, isChain_of_wide ?_, ?_, by decide, by decide⟩ <;> intro piece hmem <;>
      rw [hall piece hmem]
    · unfold Embedless
      decide
    · rfl
  refine ⟨hunits, ?_⟩
  rw [survivesHop_avcc hunits rfl]
  rintro (hshort | hfit)
  · have hfour : ([0x67, 0x42, 0xE0, 0x1E] : List UInt8).length < 4 := hshort _ rfl
    exact absurd hfour (by decide)
  · exact absurd hfit.sets.sps (by decide)

end Catplay.Analysis.Video
