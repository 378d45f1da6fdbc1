import Catplay.Library.Checked
import Catplay.Model.Video.ScreenFrameExt

/-!
# The configuration of the video

`carplay/catplay_carplay/src/video/{avcc,hvcc}.rs`, with `config` and `config_decode` of
`screen/screen_frame_ext.rs`. A position of a reader is the list of the bytes from it on. The
subtraction in `nal_size_len - 1` and the `debug_assert` on the size of the sample entry panic.
-/

set_option autoImplicit false

namespace Catplay.Model.Video

open Catplay.Library Catplay.Model.Screen

/-- The units that a configuration is made of. -/
inductive ParameterSet
  | vps | sps | pps
  deriving DecidableEq, Repr

/-- `NalType::from_byte`, as far as `Sps` and `Pps` go. -/
def NalType.parameterSet (byte : UInt8) : Option ParameterSet :=
  let type := byte &&& 0x1F
  if type = 7 then some .sps
  else if type = 8 then some .pps
  else none

/-- `HevcNalType::from_byte`, as far as `VpsNut`, `SpsNut` and `PpsNut` go. -/
def HevcNalType.parameterSet (byte : UInt8) : Option ParameterSet :=
  let type := (byte >>> 1) &&& 0x3F
  if type = 32 then some .vps
  else if type = 33 then some .sps
  else if type = 34 then some .pps
  else none

/-- `vps_list`, `sps_list` and `pps_list`. -/
structure ParameterSets where
  vps : List (List UInt8)
  sps : List (List UInt8)
  pps : List (List UInt8)
  deriving DecidableEq, Repr

def ParameterSets.empty : ParameterSets := ⟨[], [], []⟩

/-- A unit goes to the end of the list that its first byte says. -/
def ParameterSets.push (parameterSet : UInt8 → Option ParameterSet) (self : ParameterSets)
    (nal : List UInt8) : ParameterSets :=
  match nal.head?.bind parameterSet with
  | some .vps => { self with vps := self.vps ++ [nal] }
  | some .sps => { self with sps := self.sps ++ [nal] }
  | some .pps => { self with pps := self.pps ++ [nal] }
  | none => self

/-- The start code and a unit, for each of `count` units behind their lengths, and what is left. -/
def readUnits : Nat → List UInt8 → Option (List UInt8 × List UInt8)
  | 0, rest => some ([], rest)
  | count + 1, high :: low :: rest =>
    let len := BigEndian.ofBytes [high, low]
    if rest.length < len then none
    else do
      let (header, behind) ← readUnits count (rest.drop len)
      some (startCode ++ rest.take len ++ header, behind)
  | _ + 1, _ => none

/-- `(nal.len() as u16).to_be_bytes()` and the unit, for each. -/
def writeUnits (nals : List (List UInt8)) : List UInt8 :=
  nals.flatMap fun nal => BigEndian.toBytes 2 nal.length ++ nal

/-! ## H.264 -/

def shortStartCode : List UInt8 := [0, 0, 1]

/-- A start code of four bytes, or else of three, begins here. -/
def startCodeAt (data : List UInt8) (pos : Nat) : Option (Nat × Nat) :=
  if startCode <+: data.drop pos then some (pos, 4)
  else if shortStartCode <+: data.drop pos then some (pos, 3)
  else none

def findAnnexBStartCode (data : List UInt8) (start : Nat) : Option (Nat × Nat) :=
  (List.range' start (data.length - 2 - start)).findSome? (startCodeAt data)

def avccConfigDeserialize (data : List UInt8) : Option AvccConfig :=
  match data with
  | 1 :: _ :: _ :: _ :: lengthSize :: numOfSps :: rest => do
    let (sps, rest) ← readUnits (numOfSps &&& 0x1F).toNat rest
    let numOfPps ← rest.head?
    let (pps, _) ← readUnits numOfPps.toNat (rest.drop 1)
    some ⟨((lengthSize &&& 0x03) + 1).toNat, sps ++ pps⟩
  | _ => none

/-- The loop over the start codes. -/
def collectAvcc (data : List UInt8) : Nat → Nat → ParameterSets → ParameterSets
  | 0, _, sets => sets
  | fuel + 1, pos, sets =>
    match findAnnexBStartCode data pos with
    | none => sets
    | some (prefixStart, prefixLen) =>
      let start := prefixStart + prefixLen
      let stop := ((findAnnexBStartCode data start).map (·.1)).getD data.length
      collectAvcc data fuel stop
        (sets.push NalType.parameterSet ((data.drop start).take (stop - start)))

/-- Every start code has three bytes at least. -/
def avccParameterSets (data : List UInt8) : ParameterSets :=
  collectAvcc data (data.length + 1) 0 .empty

def avccConfigSerialize (avcc : AvccConfig) : Checked.Exec Empty (Option (List UInt8)) :=
  let sets := avccParameterSets avcc.spsPps
  match sets.sps.head? with
  | some (_ :: profile :: compat :: level :: _) =>
    if avcc.nalSizeLen = 0 then .error .panic
    else
      .ok (some
        ([1, profile, compat, level, 0xFC ||| .ofNat (avcc.nalSizeLen - 1),
            0xE0 ||| .ofNat sets.sps.length] ++
          writeUnits sets.sps ++ [.ofNat sets.pps.length] ++ writeUnits sets.pps))
  | _ => .ok none

/-! ## HEVC -/

/-- What the loop of `hvcc_config_serialize` keeps. -/
structure HvccScan where
  pos : Nat
  nalStart : Option Nat
  sets : ParameterSets
  deriving DecidableEq, Repr

/-- The unit that ends at `stop`, if one has begun. -/
def HvccScan.close (self : HvccScan) (data : List UInt8) (stop : Nat) : ParameterSets :=
  match self.nalStart with
  | some start =>
    self.sets.push HevcNalType.parameterSet ((data.drop start).take (stop - start))
  | none => self.sets

/-- The loop over the positions. -/
def HvccScan.run (data : List UInt8) : Nat → HvccScan → HvccScan
  | 0, self => self
  | fuel + 1, self =>
    if self.pos + 3 < data.length then
      if startCode <+: data.drop self.pos then
        run data fuel ⟨self.pos + 4, some (self.pos + 4), self.close data self.pos⟩
      else run data fuel { self with pos := self.pos + 1 }
    else self

/-- The position grows in every round. -/
def hvccParameterSets (data : List UInt8) : ParameterSets :=
  (HvccScan.run data data.length ⟨0, none, .empty⟩).close data data.length

/-- One array of units, left out when it has none. -/
def appendArray (nalType : UInt8) (nals : List (List UInt8)) : List UInt8 :=
  if nals.isEmpty then []
  else [0x80 ||| nalType] ++ BigEndian.toBytes 2 nals.length ++ writeUnits nals

/-- The arrays that are not left out. -/
def ParameterSets.numArrays (self : ParameterSets) : Nat :=
  ([self.vps, self.sps, self.pps].filter fun nals => !nals.isEmpty).length

def hvccConfigSerialize (avcc : AvccConfig) : Option (List UInt8) :=
  if ¬(avcc.nalSizeLen = 1 ∨ avcc.nalSizeLen = 2 ∨ avcc.nalSizeLen = 4) then none
  else
    let sets := hvccParameterSets avcc.spsPps
    if sets.sps.isEmpty ∨ sets.pps.isEmpty then none
    else
      some
        ([0x01, 0x01, 0x00, 0x00, 0x00, 0x00, 0x00, 0x00, 0x00, 0x00, 0x00, 0x00, 0x00, 0xF0, 0x00,
            0xFC, 0xFD, 0xF8, 0xF8, 0x00, 0x00, 0x04 ||| .ofNat (avcc.nalSizeLen - 1),
            .ofNat sets.numArrays] ++
          appendArray 32 sets.vps ++ appendArray 33 sets.sps ++ appendArray 34 sets.pps)

/-- The start code and a unit, for each unit of `count` arrays. -/
def readArrays : Nat → List UInt8 → Option (List UInt8)
  | 0, _ => some []
  | count + 1, _ :: high :: low :: rest => do
    let (header, rest) ← readUnits (BigEndian.ofBytes [high, low]) rest
    let more ← readArrays count rest
    some (header ++ more)
  | _ + 1, _ => none

structure HvccConfig where
  nalSizeLen : Nat
  vpsSpsPps : List UInt8
  deriving DecidableEq, Repr

def hvccConfigDeserialize (data : List UInt8) : Option HvccConfig :=
  if data.length < 23 ∨ data.head? ≠ some 1 then none
  else
    let nalSizeLen := (((data[21]?.getD 0) &&& 0x03) + 1).toNat
    if ¬(nalSizeLen = 1 ∨ nalSizeLen = 2 ∨ nalSizeLen = 4) then none
    else do
      let header ← readArrays (data[22]?.getD 0).toNat (data.drop 23)
      some ⟨nalSizeLen, header⟩

/-! ## The sample entry -/

/-- `b"avcC"`. -/
def avcCTag : List UInt8 := [0x61, 0x76, 0x63, 0x43]

/-- `b"hvcC"`. -/
def hvcCTag : List UInt8 := [0x68, 0x76, 0x63, 0x43]

/-- `b"hvc1"`. -/
def hvc1Tag : List UInt8 := [0x68, 0x76, 0x63, 0x31]

def imageDescriptionBaseLen : Nat := 86

/-- The loop over the atoms: `atoms` is what the sample entry has left of them. -/
def findConfigAtom : Nat → List UInt8 → Option (List UInt8 × List UInt8)
  | 0, _ => none
  | fuel + 1, atoms =>
    if atoms.length < 8 then none
    else
      let atomSize := BigEndian.ofBytes (atoms.take 4)
      if atomSize < 8 ∨ atoms.length < atomSize then none
      else
        let atomTag := (atoms.drop 4).take 4
        if atomTag = avcCTag ∨ atomTag = hvcCTag then
          some (atomTag, (atoms.take atomSize).drop 8)
        else findConfigAtom fuel (atoms.drop atomSize)

/-- An atom has eight bytes at least. -/
def hvccSampleEntryExtractCodecConfig (data : List UInt8) : Option (List UInt8 × List UInt8) :=
  if data.length < imageDescriptionBaseLen + 8 then none
  else
    let idSize := BigEndian.ofBytes (data.take 4)
    let limit := min idSize data.length
    if limit < imageDescriptionBaseLen + 8 then none
    else findConfigAtom limit ((data.take limit).drop imageDescriptionBaseLen)

/-- `ImageDescriptionBase`, with the sizes cut to their fields. -/
def imageDescriptionBase (idSize : Nat) (width height : UInt32) (sampleEntryTag : List UInt8) :
    List UInt8 :=
  BigEndian.toBytes 4 idSize ++ sampleEntryTag ++ List.replicate 4 0 ++ List.replicate 2 0 ++
    [0x00, 0xFF] ++ List.replicate 2 0 ++ List.replicate 2 0 ++ List.replicate 4 0 ++
    List.replicate 4 0 ++ List.replicate 4 0 ++ BigEndian.toBytes 2 width.toNat ++
    BigEndian.toBytes 2 height.toNat ++ [0x00, 0x48, 0x00, 0x00] ++ [0x00, 0x48, 0x00, 0x00] ++
    List.replicate 4 0 ++ [0x00, 0x01] ++
    ([6, 0x27, 0x31, 0x63, 0x76, 0x61, 0x27] ++ List.replicate 25 0) ++ [0x00, 0x18] ++
    [0xFF, 0xFF]

def hvccWriteStsdAtomFromOldFormatWithTags (width height : UInt32) (configPayload : List UInt8)
    (sampleEntryTag configAtomTag : List UInt8) : Checked.Exec Empty (List UInt8) :=
  let childAtomSize := (configPayload.length + 8) % 2 ^ 32
  let idSize := (imageDescriptionBaseLen + configPayload.length + 8) % 2 ^ 32
  let out :=
    imageDescriptionBase idSize width height sampleEntryTag ++
      (BigEndian.toBytes 4 childAtomSize ++ configAtomTag ++ configPayload)
  if out.length = idSize then .ok out else .error .panic

/-! ## The frame -/

/-- `Value64::from_f32_floor`. -/
def fromF32Floor (a b : UInt32) : Value64 :=
  .ofFn fun i =>
    (LittleEndian.toBytes 4 a.toFloat32.toBits.toNat ++
      LittleEndian.toBytes 4 b.toFloat32.toBits.toNat)[i.val]?.getD 0

/-- `f32::from_le_bytes(bytes).floor() as u32`: the conversion cuts off towards zero, and what is
below zero gives zero in either case. -/
def floorOfLeBytes (bytes : List UInt8) : UInt32 :=
  (Float32.ofBits (.ofNat (LittleEndian.ofBytes bytes))).toUInt32

/-- `Value64::as_f32_floor`. -/
def asF32Floor (value : Value64) : UInt32 × UInt32 :=
  (floorOfLeBytes (value.toList.take 4), floorOfLeBytes (value.toList.drop 4))

/-- The bits of `ScreenFlag` that are used here. -/
inductive ScreenFlag
  | respectTimestamps | encrypted | useFormatDescription
  deriving DecidableEq, Repr

def ScreenFlag.bits : ScreenFlag → UInt8
  | respectTimestamps => (1 : UInt8) <<< 1
  | encrypted => (1 : UInt8) <<< 2
  | useFormatDescription => (1 : UInt8) <<< 3

namespace BufferedFrame

/-- `flags().contains(flag)`. -/
def hasFlag (self : BufferedFrame) (flag : ScreenFlag) : Bool :=
  getElem self.header.smallParam 1 (by decide) &&& flag.bits = flag.bits

/-- The header of a configuration with the flags and the data. -/
def ofConfig (avcc : AvccConfigExtended) (flags : UInt8) (data : List UInt8) : BufferedFrame where
  header :=
    { defaultHeader with
      opcode := .videoConfig
      smallParam := defaultHeader.smallParam.set 1 flags (by decide)
      params := defaultHeader.params.set 1 (fromF32Floor avcc.width avcc.height) (by decide) }
  data
  headerBuf := []
  chachaTagBuf := []
  nalOffsetCache := []

def config (avcc : AvccConfigExtended) : Checked.Exec Empty BufferedFrame := do
  let flags := ScreenFlag.encrypted.bits |||
    if avcc.respectTimestamps then ScreenFlag.respectTimestamps.bits else 0
  if avcc.hevc then
    match hvccConfigSerialize avcc.avcc with
    | some hvcc =>
      let stsd ←
        hvccWriteStsdAtomFromOldFormatWithTags avcc.width avcc.height hvcc hvc1Tag hvcCTag
      pure (ofConfig avcc (flags ||| ScreenFlag.useFormatDescription.bits) stsd)
    | none => pure (ofConfig avcc flags [])
  else
    let data ← avccConfigSerialize avcc.avcc
    pure (ofConfig avcc flags (data.getD []))

/-- The configuration in the data, and whether it is one for HEVC. -/
def decodeData (self : BufferedFrame) : Option (AvccConfig × Bool) :=
  if self.hasFlag .useFormatDescription then do
    let (tag, payload) ← hvccSampleEntryExtractCodecConfig self.data
    if tag = avcCTag then (avccConfigDeserialize payload).map fun avcc => (avcc, false)
    else if tag = hvcCTag then
      (hvccConfigDeserialize payload).map fun hvcc =>
        ({ nalSizeLen := hvcc.nalSizeLen, spsPps := hvcc.vpsSpsPps }, true)
    else none
  else (avccConfigDeserialize self.data).map fun avcc => (avcc, false)

def configDecode (self : BufferedFrame) (videoLatency : Nat) : Option AvccConfigExtended :=
  if self.header.opcode ≠ .videoConfig then none
  else do
    let (width, height) := asF32Floor self.header.params[1]
    let (avcc, hevc) ← self.decodeData
    some {
      hevc
      avcc
      videoLatency
      width
      height
      respectTimestamps := self.hasFlag .respectTimestamps }

end BufferedFrame

end Catplay.Model.Video
