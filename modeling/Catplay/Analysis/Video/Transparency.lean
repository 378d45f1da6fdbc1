import Catplay.Analysis.Video.Caching
import Catplay.Model.Video.ScreenFrameExt

/-!
# The screen proxy is transparent

A payload that `video_decode` accepts is a list of NAL units, each behind its length
(`scan_lengthPrefixed`). The conversion writes another code over each length and leaves the units
alone (`convert_joined`), so the way back restores the payload (`videoProxied_transparent`).
-/

set_option autoImplicit false

namespace Catplay.Analysis.Video

open Catplay.Library Catplay.Model.Video

/-! ## Units behind their codes -/

def lengthCode (nal : List UInt8) : List UInt8 := BigEndian.toBytes 4 nal.length

/-- The code of a conversion. -/
def codeFor (toLengthPrefixed : Bool) (nal : List UInt8) : List UInt8 :=
  if toLengthPrefixed then lengthCode nal else startCode

/-- Where the units stand. -/
def chunksAt : Nat → List (List UInt8) → List NalChunk
  | _, [] => []
  | position, nal :: nals => ⟨position, 4, nal.length⟩ :: chunksAt (position + 4 + nal.length) nals

theorem length_lengthCode (nal : List UInt8) : (lengthCode nal).length = 4 :=
  BigEndian.length_toBytes 4 nal.length

theorem length_codeFor (toLengthPrefixed : Bool) (nal : List UInt8) :
    (codeFor toLengthPrefixed nal).length = 4 := by
  cases toLengthPrefixed with
  | true => exact length_lengthCode nal
  | false => rfl

theorem chunksAt_eq (position : Nat) (nals : List (List UInt8)) :
    chunksAt position nals = unitsAt 4 position nals := by
  induction nals generalizing position with
  | nil => rfl
  | cons nal nals ih => rw [chunksAt, unitsAt, ih]

theorem chunksAt_prefixLen {position : Nat} {nals : List (List UInt8)} :
    (chunksAt position nals).all (fun chunk => chunk.prefixLen = 4) = true := by
  induction nals generalizing position with
  | nil => rfl
  | cons nal nals ih =>
    rw [chunksAt, List.all_cons, ih]
    rfl

/-! ## The cache -/

/-- **A cache that is right** passes. -/
theorem verified_chunksAt {code : List UInt8 → List UInt8} {kind : AnnexBCacheVerifyKind}
    (hcode : ∀ nal, (code nal).length = 4) {nals : List (List UInt8)}
    (hverify : ∀ front rest, ∀ nal ∈ nals, AnnexBIter.verify (front ++ (code nal ++ nal) ++ rest)
      ⟨front.length, 4, nal.length⟩ kind = true) (front : List UInt8) {prevEnd : Nat}
    (hprevEnd : prevEnd ≤ front.length) :
    Verified kind (front ++ joined code nals) prevEnd (chunksAt front.length nals) := by
  induction nals generalizing front prevEnd with
  | nil => trivial
  | cons nal nals ih =>
    have hrest := @ih (fun front rest other hmem => hverify front rest other
      (List.mem_cons_of_mem _ hmem)) (front ++ (code nal ++ nal)) (front.length + 4 + nal.length)
      (by rw [length_front hcode])
    rw [length_front hcode] at hrest
    have hinside : Inside (front ++ (code nal ++ nal) ++ joined code nals)
        ⟨front.length, 4, nal.length⟩ := by
      show front.length + 4 + nal.length ≤ _
      rw [List.length_append, length_front hcode]
      exact Nat.le_add_right _ _
    rw [append_joined_cons, chunksAt]
    exact ⟨⟨Nat.succ_ne_zero 3, hinside, hprevEnd, hverify front _ nal List.mem_cons_self⟩, hrest⟩

theorem verify_startCode (front rest nal : List UInt8) :
    AnnexBIter.verify (front ++ (startCode ++ nal) ++ rest) ⟨front.length, 4, nal.length⟩ .annexB =
      true := by
  have hdrop : startCode <+: (front ++ (startCode ++ nal) ++ rest).drop front.length := by
    rw [List.append_assoc, List.drop_left, List.append_assoc]
    exact List.prefix_append startCode _
  exact decide_eq_true ⟨rfl, hdrop⟩

theorem verify_lengthCode (front rest : List UInt8) {nal : List UInt8}
    (hnal : nal.length < 256 ^ 4) :
    AnnexBIter.verify (front ++ (lengthCode nal ++ nal) ++ rest) ⟨front.length, 4, nal.length⟩
      (.lengthPrefixed 4) = true := by
  have hread : readLengthPrefixedNalLen (front ++ (lengthCode nal ++ nal) ++ rest) front.length 4 =
      .ok (nal.length, front.length + 4) := read_lengthOf (by decide) front rest hnal
  unfold AnnexBIter.verify
  dsimp only
  rw [hread]
  simp

/-! ## The conversion -/

theorem codeFor_eq (toLengthPrefixed : Bool) : codeFor toLengthPrefixed = codeOf toLengthPrefixed 4 := by
  cases toLengthPrefixed <;> rfl

/-- **A conversion through a cache that is right.** -/
theorem convert_joined {code : List UInt8 → List UInt8} (hcode : ∀ nal, (code nal).length = 4)
    (toLengthPrefixed : Bool) {nals : List (List UInt8)} (hsome : nals ≠ [])
    (hverify : ∀ front rest, ∀ nal ∈ nals, AnnexBIter.verify (front ++ (code nal ++ nal) ++ rest)
      ⟨front.length, 4, nal.length⟩ (if toLengthPrefixed then .annexB else .lengthPrefixed 4) = true) :
    (AnnexBConverter.withCache 4 (chunksAt 0 nals)).convert (joined code nals) toLengthPrefixed =
      pure (joined (codeFor toLengthPrefixed) nals, ⟨4, chunksAt 0 nals⟩) := by
  have hcollect : AnnexBIter.collect (.cached (joined code nals) (chunksAt 0 nals) 0
      (if toLengthPrefixed then .annexB else .lengthPrefixed 4)) = pure (chunksAt 0 nals) := by
    exact collect_verified (verified_chunksAt hcode hverify [] (Nat.le_refl 0))
      (Nat.lt_succ_self _)
  have hrebuild : AnnexBBuilder.rebuildFromChunks (joined code nals) (chunksAt 0 nals)
      toLengthPrefixed 4 =
        pure (joined (codeFor toLengthPrefixed) nals, chunksAt 0 nals) := by
    obtain ⟨nal, rest, rfl⟩ := List.exists_cons_of_ne_nil hsome
    have hsrc : joined code (nal :: rest) ≠ [] := by
      intro hnil
      have hlength := congrArg List.length hnil
      rw [joined_cons, List.length_append, List.length_append, hcode, List.length_nil] at hlength
      omega
    unfold AnnexBBuilder.rebuildFromChunks
    rw [if_neg, if_pos ⟨rfl, chunksAt_prefixLen⟩]
    · rw [chunksAt_eq, codeFor_eq]
      exact rewrite_joined hcode toLengthPrefixed [] (nal :: rest) []
    · rintro (hempty | hempty)
      · exact hsrc (List.isEmpty_iff.mp hempty)
      · cases hempty
  have hiter : (if toLengthPrefixed = true then
        (AnnexBConverter.withCache 4 (chunksAt 0 nals)).annexBChunksIter (joined code nals)
      else (AnnexBConverter.withCache 4 (chunksAt 0 nals)).lengthPrefixedChunksIter
        (joined code nals)) =
      .cached (joined code nals) (chunksAt 0 nals) 0
        (if toLengthPrefixed then .annexB else .lengthPrefixed 4) := by
    obtain ⟨nal, rest, rfl⟩ := List.exists_cons_of_ne_nil hsome
    cases toLengthPrefixed <;> rfl
  unfold AnnexBConverter.convert
  dsimp only
  rw [hiter, hcollect]
  show (AnnexBBuilder.rebuildFromChunks (joined code nals) (chunksAt 0 nals) toLengthPrefixed 4 >>=
    fun result => pure (result.1, _)) = _
  rw [hrebuild]
  rfl

/-! ## There and back -/

/-- What the buffer holds when the conversion has succeeded. -/
theorem videoDecode_accepts {self : BufferedFrame} {config : AvccConfigExtended}
    {clock : MediaClock} {now : Nat} {frame : EncodedVideoFrame}
    (hlen : config.avcc.nalSizeLen = 4)
    (haccept : self.videoDecode config clock now = pure (some frame)) :
    ∃ nals, nals ≠ [] ∧ (∀ nal ∈ nals, nal.length < 256 ^ 4) ∧
      AnnexBConverter.scanOnly self.data 4 true = pure (chunksAt 0 nals) ∧
      self.data = joined lengthCode nals ∧ frame.data = joined (codeFor false) nals ∧
      frame.nalOffsets = some (chunksAt 0 nals) := by
  unfold BufferedFrame.videoDecode at haccept
  split at haccept
  · cases pure_inj haccept
  · rename_i hframe
    rw [hlen] at haccept
    obtain ⟨scanned, hscan, hrest⟩ := bind_eq_pure.mp haccept
    obtain ⟨converted, hconvert, hresult⟩ := bind_eq_pure.mp hrest
    obtain ⟨chunks, hchunks, hscanned⟩ := bind_eq_pure.mp hscan
    obtain rfl := pure_inj hscanned
    have hcollect : AnnexBIter.collectFuel (self.data.length - 0 + 1)
        (.lengthPrefixed self.data 4 0) = some (.ok chunks) := hchunks
    obtain ⟨nals, hdata, hchunksAt, hall⟩ := scan_lengthPrefixed (Nat.zero_le _) hcollect
    rw [← chunksAt_eq] at hchunksAt
    subst hchunksAt
    have hdata' : self.data = joined lengthCode nals := hdata
    have hsome : nals ≠ [] := by
      rintro rfl
      exact hframe (.inr (List.isEmpty_iff.mpr hdata'))
    have hthere := convert_joined length_lengthCode false hsome
      fun front rest nal hnal => verify_lengthCode front rest (hall nal hnal)
    obtain ⟨result, hresult', hconverted⟩ := bind_eq_pure.mp hconvert
    have hsame : (AnnexBConverter.withCache 4 (chunksAt 0 nals)).convert self.data false =
        pure result := hresult'
    rw [hdata', hthere] at hsame
    obtain rfl := pure_inj hsame
    obtain rfl := pure_inj hconverted
    obtain rfl := Option.some.inj (pure_inj hresult)
    exact ⟨nals, hsome, hall, hchunks, hdata', rfl, rfl⟩

/-- **The screen proxy is transparent**: a payload that is accepted goes to AnnexB and back, with the
units where they were. -/
theorem videoProxied_transparent {self : BufferedFrame} {config : AvccConfigExtended}
    {clock : MediaClock} {now : Nat} {frame : EncodedVideoFrame}
    (hlen : config.avcc.nalSizeLen = 4)
    (haccept : self.videoDecode config clock now = pure (some frame)) (clock' : MediaClock) :
    ∃ proxied offsets, BufferedFrame.videoProxied frame 4 clock' = pure proxied ∧
      proxied.data = self.data ∧ frame.nalOffsets = some offsets ∧
      proxied.nalOffsetCache = offsets ∧
      AnnexBConverter.scanOnly proxied.data 4 true = pure offsets ∧
      self.data = joined lengthCode (payloads self.data offsets) ∧
      frame.data = joined (fun _ => startCode) (payloads self.data offsets) ∧
      payloads frame.data offsets = payloads self.data offsets := by
  obtain ⟨nals, hsome, hall, hscan, hdata, hframe, hoffsets⟩ := videoDecode_accepts hlen haccept
  have hback := convert_joined (length_codeFor false) true hsome
    fun front rest nal _ => verify_startCode front rest nal
  have hself : payloads self.data (chunksAt 0 nals) = nals := by
    rw [hdata, chunksAt_eq]
    exact payloads_joined length_lengthCode [] nals
  have hannexB : payloads frame.data (chunksAt 0 nals) = nals := by
    rw [hframe, chunksAt_eq]
    exact payloads_joined (length_codeFor false) [] nals
  have hproxied : BufferedFrame.videoProxied frame 4 clock' = pure
      { BufferedFrame.videoAvcc frame.data frame.pts clock' with
        data := joined lengthCode nals
        nalOffsetCache := chunksAt 0 nals
        headerBuf := frame.headerBuf
        chachaTagBuf := frame.chachaTagBuf } := by
    unfold BufferedFrame.videoProxied BufferedFrame.videoAnnexBCached BufferedFrame.convertStartcodes
    rw [hoffsets, hframe]
    show ((AnnexBConverter.withCache 4 (chunksAt 0 nals)).convert (joined (codeFor false) nals) true >>=
      _) >>= _ = _
    rw [hback]
    rfl
  refine ⟨_, chunksAt 0 nals, hproxied, hdata.symm, hoffsets, rfl, ?_, ?_, ?_, ?_⟩
  · rw [← hdata]
    exact hscan
  · rw [hself]
    exact hdata
  · rw [hself]
    exact hframe
  · rw [hself, hannexB]

/-! ## A payload with start codes -/

/-- Units that hold a start code, and nothing at all. -/
def startCodesInside : BufferedFrame where
  header := { defaultHeader with opcode := .videoFrame }
  data := [0, 0, 0, 5, 0x65, 0, 0, 0, 1] ++ [0, 0, 0, 0] ++ [0, 0, 0, 4, 0, 0, 0, 1]
  headerBuf := []
  chachaTagBuf := []
  nalOffsetCache := []

def fourBytes : AvccConfigExtended := ⟨false, ⟨4, []⟩, 0, 800, 480, true⟩

def stoppedClock : MediaClock := ⟨fun _ => some 0, fun _ => 0⟩

theorem videoProxied_transparent_startCodes :
    ∃ frame, startCodesInside.videoDecode fourBytes stoppedClock 0 = pure (some frame) ∧
      ∃ proxied offsets, BufferedFrame.videoProxied frame 4 stoppedClock = pure proxied ∧
        proxied.data = startCodesInside.data ∧ frame.nalOffsets = some offsets ∧
        proxied.nalOffsetCache = offsets ∧
        AnnexBConverter.scanOnly proxied.data 4 true = pure offsets ∧
        startCodesInside.data = joined lengthCode (payloads startCodesInside.data offsets) ∧
        frame.data = joined (fun _ => startCode) (payloads startCodesInside.data offsets) ∧
        payloads frame.data offsets = payloads startCodesInside.data offsets := by
  have haccepts : ∃ frame, startCodesInside.videoDecode fourBytes stoppedClock 0 =
      pure (some frame) := ⟨_, rfl⟩
  obtain ⟨frame, hframe⟩ := haccepts
  exact ⟨frame, hframe, videoProxied_transparent rfl hframe stoppedClock⟩

end Catplay.Analysis.Video
