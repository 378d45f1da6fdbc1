import Catplay.Analysis.Video.Conversion

/-!
# Stale caches

The iterator checks each chunk of a cache by itself: its bounds, its order and the code in front.
A cache that passes is used, although it may leave parts of the buffer out. The conversion is the
one without a cache exactly if the chunks also cover the buffer and no start code is inside them
(`harmless_iff`).
-/

set_option autoImplicit false

namespace Catplay.Analysis.Video

open Catplay.Library Catplay.Model.Video

/-! ## The scan ends -/

theorem next_remaining {iter later : AnnexBIter} {chunk : NalChunk}
    (hlen : ∀ src nalSizeLen offset, iter = .lengthPrefixed src nalSizeLen offset → 1 ≤ nalSizeLen)
    (h : iter.next = some (.ok chunk, later)) :
    later.remaining < iter.remaining ∧
      ∀ src nalSizeLen offset, later = .lengthPrefixed src nalSizeLen offset → 1 ≤ nalSizeLen := by
  cases iter with
  | cached src chunks prevEnd kind =>
    cases chunks with
    | nil => cases h
    | cons first chunks =>
      unfold AnnexBIter.next at h
      dsimp only at h
      split at h
      · cases h
      · split at h
        · cases h
        · cases h
          exact ⟨Nat.lt_succ_self _, fun _ _ _ hlater => by cases hlater⟩
  | annexB src pos done =>
    unfold AnnexBIter.next at h
    dsimp only at h
    split at h
    · cases h
    · rename_i hdone
      split at h
      · split at h
        · cases h
        · cases h
      · rename_i hroom
        split at h
        · cases h
        · split at h
          · cases h
          · rename_i hnext
            cases h
            refine ⟨?_, fun _ _ _ hlater => by cases hlater⟩
            unfold AnnexBIter.remaining
            dsimp only
            rw [if_neg hdone]
            split
            · omega
            · omega
  | lengthPrefixed src nalSizeLen offset =>
    have hpos := hlen src nalSizeLen offset rfl
    unfold AnnexBIter.next at h
    dsimp only at h
    split at h
    · cases h
    · rename_i hend
      split at h
      · rename_i nalLen payloadStart hread
        cases h
        have hstart : payloadStart = offset + nalSizeLen := by
          unfold readLengthPrefixedNalLen at hread
          dsimp only at hread
          split at hread
          · cases hread
          · split at hread
            · cases hread
            · split at hread
              · cases hread
              · exact (Prod.mk.inj (Except.ok.inj hread)).2.symm
        refine ⟨?_, fun _ _ _ hlater => by cases hlater; exact hpos⟩
        unfold AnnexBIter.remaining
        dsimp only
        omega
      · cases h

/-- **A scan ends** with chunks or with an error. -/
theorem collectFuel_ne_none {fuel : Nat} {iter : AnnexBIter}
    (hlen : ∀ src nalSizeLen offset, iter = .lengthPrefixed src nalSizeLen offset → 1 ≤ nalSizeLen)
    (hfuel : iter.remaining < fuel) : iter.collectFuel fuel ≠ none := by
  induction fuel generalizing iter with
  | zero => exact absurd hfuel (Nat.not_lt_zero _)
  | succ fuel ih =>
    unfold AnnexBIter.collectFuel
    cases hnext : iter.next with
    | none => exact Option.some_ne_none _
    | some item =>
      obtain ⟨result, later⟩ := item
      cases result with
      | error e => exact Option.some_ne_none _
      | ok chunk =>
        obtain ⟨hless, hlater⟩ := next_remaining hlen hnext
        dsimp only
        rw [ne_eq, Option.map_eq_none_iff]
        exact ih hlater (by omega)

/-! ## What is checked of a cache -/

/-- The check of the cache that goes with a kind of buffer. -/
def kindFor (lengthPrefixed : Bool) (nalSizeLen : Nat) : AnnexBCacheVerifyKind :=
  if lengthPrefixed then .lengthPrefixed nalSizeLen else .annexB

/-- A chunk passes: it lies in the buffer, behind the one before, with its code in front. -/
structure Passes (kind : AnnexBCacheVerifyKind) (src : List UInt8) (prevEnd : Nat)
    (chunk : NalChunk) : Prop where
  prefixed : chunk.prefixLen ≠ 0
  inside : Inside src chunk
  ordered : prevEnd ≤ chunk.prefixStart
  verified : AnnexBIter.verify src chunk kind = true

/-- Where a chunk ends. -/
def chunkEnd (chunk : NalChunk) : Nat := chunk.prefixStart + chunk.prefixLen + chunk.dataSize

/-- **Every chunk of the cache passes.** -/
def Verified (kind : AnnexBCacheVerifyKind) (src : List UInt8) : Nat → List NalChunk → Prop
  | _, [] => True
  | prevEnd, chunk :: chunks =>
    Passes kind src prevEnd chunk ∧ Verified kind src (chunkEnd chunk) chunks

section Checking

variable {kind : AnnexBCacheVerifyKind} {src : List UInt8} {prevEnd : Nat} {chunk : NalChunk}
  {chunks : List NalChunk}

theorem next_of_passes (h : Passes kind src prevEnd chunk) :
    AnnexBIter.next (.cached src (chunk :: chunks) prevEnd kind) =
      some (.ok chunk, .cached src chunks (chunkEnd chunk) kind) := by
  have hinside : chunk.prefixStart + chunk.prefixLen + chunk.dataSize ≤ src.length := h.inside
  have hordered := h.ordered
  have hbounds : chunkPayloadBounds src chunk =
      .ok (chunk.prefixStart + chunk.prefixLen, chunkEnd chunk) := by
    unfold chunkPayloadBounds
    dsimp only
    rw [if_neg h.prefixed, if_neg (Nat.not_lt.mpr hinside)]
    rfl
  unfold AnnexBIter.next
  dsimp only
  rw [hbounds]
  dsimp only
  rw [if_neg (by rw [h.verified]; simp only [not_true_eq_false, or_false]; omega)]

theorem next_of_not_passes (h : ¬ Passes kind src prevEnd chunk) :
    AnnexBIter.next (.cached src (chunk :: chunks) prevEnd kind) =
      some (.error .param, .cached src chunks prevEnd kind) := by
  unfold AnnexBIter.next
  dsimp only
  cases hbounds : chunkPayloadBounds src chunk with
  | error e => rfl
  | ok bounds =>
    obtain ⟨payloadStart, payloadEnd⟩ := bounds
    unfold chunkPayloadBounds at hbounds
    dsimp only at hbounds
    split at hbounds
    · cases hbounds
    · rename_i hprefixed
      split at hbounds
      · cases hbounds
      · rename_i hinside
        dsimp only
        rw [if_pos]
        by_contra hgood
        rw [not_or, not_not] at hgood
        exact h ⟨hprefixed, Nat.le_of_not_lt hinside, Nat.le_of_not_lt hgood.1, hgood.2⟩

/-- **A cache that passes is what the iterator gives.** -/
theorem collect_verified (h : Verified kind src prevEnd chunks) {fuel : Nat}
    (hfuel : chunks.length < fuel) :
    AnnexBIter.collectFuel fuel (.cached src chunks prevEnd kind) = some (.ok chunks) := by
  induction chunks generalizing prevEnd fuel with
  | nil =>
    cases fuel with
    | zero => cases hfuel
    | succ fuel => rfl
  | cons chunk chunks ih =>
    cases fuel with
    | zero => cases hfuel
    | succ fuel =>
      obtain ⟨hpasses, hrest⟩ := h
      unfold AnnexBIter.collectFuel
      rw [next_of_passes hpasses]
      dsimp only
      rw [ih hrest (Nat.lt_of_succ_lt_succ hfuel)]
      rfl

theorem collect_unverified (h : ¬ Verified kind src prevEnd chunks) {fuel : Nat}
    (hfuel : chunks.length < fuel) :
    AnnexBIter.collectFuel fuel (.cached src chunks prevEnd kind) = some (.error .param) := by
  induction chunks generalizing prevEnd fuel with
  | nil => exact (h trivial).elim
  | cons chunk chunks ih =>
    cases fuel with
    | zero => cases hfuel
    | succ fuel =>
      unfold AnnexBIter.collectFuel
      by_cases hpasses : Passes kind src prevEnd chunk
      · rw [next_of_passes hpasses]
        dsimp only
        rw [ih (fun hrest => h ⟨hpasses, hrest⟩) (Nat.lt_of_succ_lt_succ hfuel)]
        rfl
      · rw [next_of_not_passes hpasses]

/-- The chunks one after the other, without holes, up to the end. -/
def Tiles (src : List UInt8) : Nat → List NalChunk → Prop
  | position, [] => position = src.length
  | position, chunk :: chunks => chunk.prefixStart = position ∧ Tiles src (chunkEnd chunk) chunks

end Checking

/-! ## A cache that covers the buffer -/

section Covering

variable {lengthPrefixed : Bool} {nalSizeLen : Nat} {src : List UInt8}

/-- What the check of one chunk says about its code. -/
theorem code_of_passes {prevEnd : Nat} {chunk : NalChunk}
    (h : Passes (kindFor lengthPrefixed nalSizeLen) src prevEnd chunk) :
    chunk.prefixLen = widthOf lengthPrefixed nalSizeLen ∧
      (src.drop chunk.prefixStart).take chunk.prefixLen =
        codeOf lengthPrefixed nalSizeLen (payload src chunk) ∧
      (lengthPrefixed = true → chunk.dataSize < 256 ^ nalSizeLen) := by
  have hverified := h.verified
  have hlength := length_payload h.inside
  cases lengthPrefixed with
  | false =>
    obtain ⟨hfour, hprefix⟩ := of_decide_eq_true hverified
    refine ⟨hfour, ?_, fun hfalse => by cases hfalse⟩
    rw [hfour]
    exact (List.prefix_iff_eq_take.mp hprefix).symm
  | true =>
    obtain ⟨hwidth, hread⟩ := Bool.and_eq_true_iff.mp hverified
    have hwidth := of_decide_eq_true hwidth
    cases hresult : readLengthPrefixedNalLen src chunk.prefixStart nalSizeLen with
    | error e =>
      rw [hresult] at hread
      cases hread
    | ok result =>
      obtain ⟨nalLen, payloadStart⟩ := result
      rw [hresult] at hread
      have hsize : nalLen = chunk.dataSize := of_decide_eq_true hread
      unfold readLengthPrefixedNalLen at hresult
      dsimp only at hresult
      split at hresult
      · cases hresult
      · rename_i hroom
        split at hresult
        · cases hresult
        · split at hresult
          · cases hresult
          · have hcode : ((src.drop chunk.prefixStart).take nalSizeLen).length = nalSizeLen := by
              rw [List.length_take, List.length_drop]
              omega
            have hlt := BigEndian.ofBytes_lt ((src.drop chunk.prefixStart).take nalSizeLen)
            have hbytes := BigEndian.toBytes_ofBytes ((src.drop chunk.prefixStart).take nalSizeLen)
            rw [hcode, (Prod.mk.inj (Except.ok.inj hresult)).1, hsize] at hlt hbytes
            refine ⟨hwidth, ?_, fun _ => hlt⟩
            rw [hwidth, ← hbytes, ← hlength]
            rfl

/-- **A cache that passes and covers the buffer** gives its units. -/
theorem units_of_tiles {position : Nat} {chunks : List NalChunk}
    (hverified : Verified (kindFor lengthPrefixed nalSizeLen) src position chunks)
    (htiles : Tiles src position chunks) :
    src.drop position = joined (codeOf lengthPrefixed nalSizeLen) (payloads src chunks) ∧
      chunks = unitsAt (widthOf lengthPrefixed nalSizeLen) position (payloads src chunks) ∧
      ∀ chunk ∈ chunks, lengthPrefixed = true → chunk.dataSize < 256 ^ nalSizeLen := by
  induction chunks generalizing position with
  | nil =>
    have hend : position = src.length := htiles
    exact ⟨List.drop_of_length_le (Nat.le_of_eq hend.symm), rfl, fun _ hmem => nomatch hmem⟩
  | cons chunk chunks ih =>
    obtain ⟨hpasses, hrest⟩ := hverified
    obtain ⟨rfl, hcover⟩ := htiles
    obtain ⟨hwidth, hcode, hsize⟩ := code_of_passes hpasses
    obtain ⟨hsrc, hchunks, hsizes⟩ := ih hrest hcover
    have hlength := length_payload hpasses.inside
    refine ⟨?_, ?_, ?_⟩
    · have hsplit : src.drop chunk.prefixStart =
          (src.drop chunk.prefixStart).take chunk.prefixLen ++
            (payload src chunk ++ src.drop (chunkEnd chunk)) := by
        have hbehind : src.drop (chunkEnd chunk) =
            (src.drop (chunk.prefixStart + chunk.prefixLen)).drop chunk.dataSize := by
          rw [List.drop_drop]
          rfl
        rw [hbehind, payload, List.take_append_drop, ← List.drop_drop, List.take_append_drop]
      rw [payloads_cons, joined_cons, ← hsrc, ← hcode, List.append_assoc]
      exact hsplit
    · rw [payloads_cons, unitsAt, hlength, ← hwidth]
      conv_lhs => rw [hchunks, ← hwidth]
      rfl
    · intro other hmem
      rcases List.mem_cons.mp hmem with rfl | hin
      · exact hsize
      · exact hsizes other hin

/-- The bytes that chunks take up. -/
def extent (width : Nat) (sizes : List Nat) : Nat := (sizes.map (width + ·)).sum

theorem length_joined {code : List UInt8 → List UInt8} {width : Nat}
    (hcode : ∀ nal, (code nal).length = width) (nals : List (List UInt8)) :
    (joined code nals).length = extent width (nals.map List.length) := by
  induction nals with
  | nil => rfl
  | cons nal nals ih =>
    rw [joined_cons, List.length_append, List.length_append, hcode, ih]
    rfl

theorem extent_le {position : Nat} (hposition : position ≤ src.length) {chunks : List NalChunk}
    (h : Verified (kindFor lengthPrefixed nalSizeLen) src position chunks) :
    position + extent (widthOf lengthPrefixed nalSizeLen) (chunks.map (·.dataSize)) ≤
      src.length := by
  induction chunks generalizing position with
  | nil => exact hposition
  | cons chunk chunks ih =>
    obtain ⟨hpasses, hrest⟩ := h
    have hwidth := (code_of_passes hpasses).1
    have hordered := hpasses.ordered
    have hle := ih hpasses.inside hrest
    unfold extent at *
    rw [List.map_cons, List.map_cons, List.sum_cons]
    omega

/-- **Chunks that take up the whole buffer cover it.** -/
theorem tiles_of_extent {position : Nat} {chunks : List NalChunk}
    (h : Verified (kindFor lengthPrefixed nalSizeLen) src position chunks)
    (hextent : position + extent (widthOf lengthPrefixed nalSizeLen) (chunks.map (·.dataSize)) =
      src.length) : Tiles src position chunks := by
  induction chunks generalizing position with
  | nil => exact hextent
  | cons chunk chunks ih =>
    obtain ⟨hpasses, hrest⟩ := h
    have hwidth := (code_of_passes hpasses).1
    have hordered := hpasses.ordered
    have hle := extent_le hpasses.inside hrest
    unfold extent at *
    rw [List.map_cons, List.map_cons, List.sum_cons] at hextent
    have hend : chunk.prefixStart + chunk.prefixLen + chunk.dataSize = chunkEnd chunk := rfl
    have hstart : chunk.prefixStart = position := by omega
    exact ⟨hstart, ih hrest (by omega)⟩

theorem unitsAt_congr {width position : Nat} {nals others : List (List UInt8)}
    (h : nals.map List.length = others.map List.length) :
    unitsAt width position nals = unitsAt width position others := by
  induction nals generalizing position others with
  | nil =>
    cases others with
    | nil => rfl
    | cons other others => cases h
  | cons nal nals ih =>
    cases others with
    | nil => cases h
    | cons other others =>
      obtain ⟨hlength, hrest⟩ := List.cons.inj h
      rw [unitsAt, unitsAt, hlength, ih hrest]

end Covering

/-! ## The paths over any cache -/

section Paths

variable {src : List UInt8} {toLengthPrefixed : Bool} {nalSizeLen : Nat} {chunks : List NalChunk}

theorem inside_of_verified {kind : AnnexBCacheVerifyKind} {prevEnd : Nat}
    (h : Verified kind src prevEnd chunks) : ∀ chunk ∈ chunks, Inside src chunk := by
  induction chunks generalizing prevEnd with
  | nil =>
    intro chunk hmem
    cases hmem
  | cons first chunks ih =>
    intro chunk hmem
    rcases List.mem_cons.mp hmem with rfl | hin
    · exact h.1.inside
    · exact ih h.2 chunk hin

/-- The fast path over chunks inside the buffer. -/
theorem rewrite_inside (hinside : ∀ chunk ∈ chunks, Inside src chunk)
    (hfour : ∀ chunk ∈ chunks, chunk.prefixLen = 4) (done : List NalChunk) :
    ∃ out, out.length = src.length ∧
      chunks.foldlM (AnnexBBuilder.rewrite toLengthPrefixed) (src, done) =
        pure (out, done ++ chunks) := by
  induction chunks generalizing src done with
  | nil =>
    refine ⟨src, rfl, ?_⟩
    rw [List.foldlM_nil, List.append_nil]
  | cons chunk chunks ih =>
    have hchunk : chunk.prefixStart + chunk.prefixLen + chunk.dataSize ≤ src.length :=
      hinside chunk List.mem_cons_self
    have hprefix := hfour chunk List.mem_cons_self
    obtain ⟨code, hcode, hturn⟩ : ∃ code : List UInt8, code.length = 4 ∧
        AnnexBBuilder.rewrite toLengthPrefixed (src, done) chunk =
          (do
            let src ← copyFromSlice src chunk.prefixStart (chunk.prefixStart + 4) code
            pure (src, done ++ [⟨chunk.prefixStart, 4, chunk.dataSize⟩])) := by
      cases toLengthPrefixed with
      | true => exact ⟨BigEndian.toBytes 4 chunk.dataSize, BigEndian.length_toBytes 4 _, rfl⟩
      | false => exact ⟨startCode, rfl, rfl⟩
    have hcopy : copyFromSlice src chunk.prefixStart (chunk.prefixStart + 4) code =
        pure (Buffer.overwrite src chunk.prefixStart code) := by
      unfold copyFromSlice
      rw [if_pos ⟨by omega, by omega, by omega⟩]
    have hlength : (Buffer.overwrite src chunk.prefixStart code).length = src.length := by
      unfold Buffer.overwrite
      rw [List.length_append, List.length_append, List.length_take, List.length_drop, hcode]
      omega
    have hsame : (⟨chunk.prefixStart, 4, chunk.dataSize⟩ : NalChunk) = chunk := by
      cases chunk
      simp_all
    obtain ⟨out, hout, hrest⟩ := @ih (Buffer.overwrite src chunk.prefixStart code)
      (fun other hmem => by
        unfold Inside
        rw [hlength]
        exact hinside other (List.mem_cons_of_mem _ hmem))
      (fun other hmem => hfour other (List.mem_cons_of_mem _ hmem)) (done ++ [chunk])
    refine ⟨out, hout.trans hlength, ?_⟩
    rw [List.foldlM_cons, hturn, hcopy, pure_bind, hsame, pure_bind, hrest, List.append_assoc]
    rfl

end Paths

/-! ## Conversions with a cache -/

section Convert

variable {src : List UInt8} {toLengthPrefixed : Bool} {nalSizeLen : Nat} {cache : List NalChunk}

theorem convert_badLen (hlen : ¬(1 ≤ nalSizeLen ∧ nalSizeLen ≤ 4)) :
    AnnexBConverter.convert ⟨nalSizeLen, cache⟩ src toLengthPrefixed = throw .param := by
  unfold AnnexBConverter.convert
  rw [if_pos (fun h => hlen ⟨h.1, Nat.le_of_lt_succ h.2⟩)]
  rfl

theorem cached_iter (hsome : cache ≠ []) :
    (if toLengthPrefixed = true then AnnexBConverter.annexBChunksIter ⟨nalSizeLen, cache⟩ src
      else AnnexBConverter.lengthPrefixedChunksIter ⟨nalSizeLen, cache⟩ src) =
      .cached src cache 0 (kindFor (!toLengthPrefixed) nalSizeLen) := by
  obtain ⟨chunk, chunks, rfl⟩ := List.exists_cons_of_ne_nil hsome
  cases toLengthPrefixed <;> rfl

theorem convert_unverified (hlen : 1 ≤ nalSizeLen ∧ nalSizeLen ≤ 4) (hsome : cache ≠ [])
    (h : ¬ Verified (kindFor (!toLengthPrefixed) nalSizeLen) src 0 cache) :
    AnnexBConverter.convert ⟨nalSizeLen, cache⟩ src toLengthPrefixed = throw .param := by
  have hcollect : AnnexBIter.collect
      (.cached src cache 0 (kindFor (!toLengthPrefixed) nalSizeLen)) = throw .param :=
    collect_unverified h (Nat.lt_succ_self _)
  unfold AnnexBConverter.convert
  rw [if_neg (not_not.mpr ⟨hlen.1, Nat.lt_succ_of_le hlen.2⟩)]
  dsimp only
  rw [cached_iter hsome, hcollect]
  rfl

theorem convert_verified (hlen : 1 ≤ nalSizeLen ∧ nalSizeLen ≤ 4) (hsome : cache ≠ [])
    (h : Verified (kindFor (!toLengthPrefixed) nalSizeLen) src 0 cache) :
    AnnexBConverter.convert ⟨nalSizeLen, cache⟩ src toLengthPrefixed =
      (do
        let (out, chunks) ←
          AnnexBBuilder.rebuildFromChunks src cache toLengthPrefixed nalSizeLen
        pure (out, ⟨nalSizeLen, chunks⟩)) := by
  have hcollect : AnnexBIter.collect
      (.cached src cache 0 (kindFor (!toLengthPrefixed) nalSizeLen)) = pure cache :=
    collect_verified h (Nat.lt_succ_self _)
  unfold AnnexBConverter.convert
  rw [if_neg (not_not.mpr ⟨hlen.1, Nat.lt_succ_of_le hlen.2⟩)]
  dsimp only
  rw [cached_iter hsome, hcollect]
  rfl

theorem src_not_empty (hsome : cache ≠ [])
    (h : Verified (kindFor (!toLengthPrefixed) nalSizeLen) src 0 cache) :
    ¬(src.isEmpty = true ∨ cache.isEmpty = true) := by
  rintro (hempty | hempty)
  · obtain ⟨chunk, chunks, rfl⟩ := List.exists_cons_of_ne_nil hsome
    have hinside : chunk.prefixStart + chunk.prefixLen + chunk.dataSize ≤ src.length :=
      h.1.inside
    have hprefixed := h.1.prefixed
    rw [List.isEmpty_iff.mp hempty, List.length_nil] at hinside
    omega
  · exact hsome (List.isEmpty_iff.mp hempty)

theorem dataSize_payloads (hinside : ∀ chunk ∈ cache, Inside src chunk) :
    (payloads src cache).map List.length = cache.map (·.dataSize) := by
  show (cache.map (payload src)).map List.length = _
  rw [List.map_map]
  exact List.map_congr_left fun chunk hmem => length_payload (hinside chunk hmem)

/-- **A cache that passes is used**, whatever it leaves out. -/
theorem rebuild_verified (hlen : 1 ≤ nalSizeLen ∧ nalSizeLen ≤ 4) (hsome : cache ≠ [])
    (h : Verified (kindFor (!toLengthPrefixed) nalSizeLen) src 0 cache)
    (hfits : ∀ chunk ∈ cache, Fits toLengthPrefixed nalSizeLen chunk.dataSize) :
    ∃ out chunks, AnnexBBuilder.rebuildFromChunks src cache toLengthPrefixed nalSizeLen =
        pure (out, chunks) ∧ chunks.map (·.dataSize) = cache.map (·.dataSize) := by
  have hinside := inside_of_verified h
  unfold AnnexBBuilder.rebuildFromChunks
  rw [if_neg (src_not_empty hsome h)]
  split
  · rename_i hfast
    have hfour : ∀ chunk ∈ cache, chunk.prefixLen = 4 := by
      intro chunk hmem
      exact of_decide_eq_true (List.all_eq_true.mp hfast.2 chunk hmem)
    obtain ⟨out, -, hrewrite⟩ := @rewrite_inside _ toLengthPrefixed _ hinside hfour []
    exact ⟨out, cache, hrewrite, rfl⟩
  · have hscratch := scratch_fits hlen hinside hfits
    refine ⟨_, _, hscratch, ?_⟩
    rw [dataSize_unitsAt, dataSize_payloads hinside]

theorem rebuild_refused (hlen : 1 ≤ nalSizeLen ∧ nalSizeLen ≤ 4) (hsome : cache ≠ [])
    (h : Verified (kindFor (!toLengthPrefixed) nalSizeLen) src 0 cache) (hfour : nalSizeLen ≠ 4)
    (hnot : ∃ chunk ∈ cache, ¬ Fits toLengthPrefixed nalSizeLen chunk.dataSize) :
    AnnexBBuilder.rebuildFromChunks src cache toLengthPrefixed nalSizeLen = throw .param := by
  unfold AnnexBBuilder.rebuildFromChunks
  rw [if_neg (src_not_empty hsome h), if_neg (fun hfast => hfour hfast.1)]
  exact scratch_refused hlen (inside_of_verified h) hnot

/-- **What a conversion without a cache has found.** -/
theorem convert_ok (hlen : 1 ≤ nalSizeLen ∧ nalSizeLen ≤ 4) {out : List UInt8}
    {chunks : List NalChunk}
    (h : AnnexBConverter.convert ⟨nalSizeLen, []⟩ src toLengthPrefixed =
      pure (out, ⟨nalSizeLen, chunks⟩)) :
    ∃ nals, Separable (!toLengthPrefixed) nalSizeLen nals ∧
      src = joined (codeOf (!toLengthPrefixed) nalSizeLen) nals ∧
      chunks.map (·.dataSize) = nals.map List.length := by
  have hscan : ∃ found, AnnexBConverter.scanOnly src nalSizeLen (!toLengthPrefixed) =
      pure found := by
    unfold AnnexBConverter.convert at h
    rw [if_neg (not_not.mpr ⟨hlen.1, Nat.lt_succ_of_le hlen.2⟩)] at h
    obtain ⟨found, hfound, -⟩ := bind_eq_pure.mp h
    refine ⟨found, ?_⟩
    rw [scanOnly_eq hlen]
    cases toLengthPrefixed <;> exact hfound
  obtain ⟨found, hfound⟩ := hscan
  obtain ⟨nals, hnals, rfl, -⟩ := (scanOnly_iff hlen).mp hfound
  refine ⟨nals, hnals, rfl, ?_⟩
  by_cases hfits : ∀ nal ∈ nals, Fits toLengthPrefixed nalSizeLen nal.length
  · have hconvert := convert_fits hlen hnals
    rw [Bool.not_not] at hconvert
    rw [hconvert hfits] at h
    have hchunks := congrArg AnnexBConverter.offsetsCache (Prod.mk.inj (pure_inj h)).2
    dsimp only at hchunks
    rw [← hchunks, dataSize_unitsAt]
  · have hconvert := convert_refused hlen hnals
    rw [Bool.not_not] at hconvert
    rw [hconvert hfits] at h
    cases h

/-- **A cache that passes gives what the scan gives only if it covers the buffer.** -/
theorem covers_of_same (hlen : 1 ≤ nalSizeLen ∧ nalSizeLen ≤ 4) {out : List UInt8}
    {chunks : List NalChunk}
    (h : Verified (kindFor (!toLengthPrefixed) nalSizeLen) src 0 cache)
    (hsizes : chunks.map (·.dataSize) = cache.map (·.dataSize))
    (hscanned : AnnexBConverter.convert ⟨nalSizeLen, []⟩ src toLengthPrefixed =
      pure (out, ⟨nalSizeLen, chunks⟩)) :
    Tiles src 0 cache ∧
      (toLengthPrefixed = true → ∀ nal ∈ payloads src cache, StartCodeFree nal) := by
  obtain ⟨nals, hnals, rfl, hfound⟩ := convert_ok hlen hscanned
  have hwidth := length_codeOf (!toLengthPrefixed) nalSizeLen
  rw [hsizes] at hfound
  have htiles : Tiles (joined (codeOf (!toLengthPrefixed) nalSizeLen) nals) 0 cache := by
    apply tiles_of_extent h
    rw [hfound, length_joined hwidth, Nat.zero_add]
  refine ⟨htiles, fun hto => ?_⟩
  obtain ⟨-, hcache, -⟩ := units_of_tiles h htiles
  have hlengths : (payloads (joined (codeOf (!toLengthPrefixed) nalSizeLen) nals) cache).map
      List.length = nals.map List.length :=
    (dataSize_payloads (inside_of_verified h)).trans hfound
  have hsame : payloads (joined (codeOf (!toLengthPrefixed) nalSizeLen) nals) cache = nals := by
    rw [unitsAt_congr hlengths] at hcache
    conv_lhs => rw [hcache]
    exact payloads_joined hwidth [] nals
  rw [hsame]
  subst hto
  exact hnals

/-- A cache that covers the buffer is what the scan finds. -/
theorem same_of_covers (hlen : 1 ≤ nalSizeLen ∧ nalSizeLen ≤ 4) (hsome : cache ≠ [])
    (h : Verified (kindFor (!toLengthPrefixed) nalSizeLen) src 0 cache)
    (htiles : Tiles src 0 cache)
    (hfree : toLengthPrefixed = true → ∀ nal ∈ payloads src cache, StartCodeFree nal) :
    AnnexBConverter.convert ⟨nalSizeLen, cache⟩ src toLengthPrefixed =
      AnnexBConverter.convert ⟨nalSizeLen, []⟩ src toLengthPrefixed := by
  obtain ⟨hsrc, hcache, hsizes⟩ := units_of_tiles h htiles
  have hnals : Separable (!toLengthPrefixed) nalSizeLen (payloads src cache) := by
    cases toLengthPrefixed with
    | true => exact hfree rfl
    | false =>
      intro nal hmem
      obtain ⟨chunk, hchunk, rfl⟩ := List.mem_map.mp hmem
      have hsize := hsizes chunk hchunk rfl
      have hlength := length_payload (inside_of_verified h chunk hchunk)
      rw [← hlength] at hsize
      exact hsize
  have hscanned := convert_scanned hlen hnals
  rw [← rebuild_eq_scratch hlen, Bool.not_not, ← hsrc, ← hcache, List.drop_zero] at hscanned
  rw [convert_verified hlen hsome h]
  exact hscanned.symm

end Convert

/-! ## The buffer of the caller -/

section InPlace

variable {α β : Type}

/-- A computation in the buffer, from what the buffer holds. -/
def runIn (x : InPlace α) (src : List UInt8) : Option (Except NalError α × List UInt8) :=
  x.run.run src

theorem runIn_bind (x : InPlace α) (f : α → InPlace β) (src : List UInt8) :
    runIn (x >>= f) src =
      match runIn x src with
      | none => none
      | some (.ok a, after) => runIn (f a) after
      | some (.error e, after) => some (.error e, after) := by
  unfold runIn
  rw [ExceptT.run_bind, StateT.run_bind]
  cases StateT.run (ExceptT.run x) src with
  | none => rfl
  | some result =>
    obtain ⟨value, after⟩ := result
    cases value <;> rfl

theorem runIn_readOnly (result : Nal α) (src : List UInt8) :
    runIn (readOnly result) src = result.run.map (·, src) := rfl

theorem runIn_get (src : List UInt8) :
    runIn (get : InPlace (List UInt8)) src = some (.ok src, src) := rfl

/-- What the loop over the codes leaves in the buffer. -/
def written : Nal (List UInt8 × List NalChunk) → Option (Except NalError (List NalChunk) × List UInt8)
  | some (.ok (out, outChunks)) => some (.ok outChunks, out)
  | _ => none

theorem copyFromSlice_cases (src : List UInt8) (start stop : Nat) (bytes : List UInt8) :
    (∃ out, copyFromSlice src start stop bytes = pure out) ∨
      copyFromSlice src start stop bytes = none := by
  unfold copyFromSlice
  split
  · exact .inl ⟨_, rfl⟩
  · exact .inr rfl

theorem runIn_rewriteIn (toLengthPrefixed : Bool) (src : List UInt8) (done : List NalChunk)
    (chunk : NalChunk) :
    runIn (AnnexBBuilder.rewriteIn toLengthPrefixed done chunk) src =
      written (AnnexBBuilder.rewrite toLengthPrefixed (src, done) chunk) := by
  unfold AnnexBBuilder.rewriteIn AnnexBBuilder.rewrite
  dsimp only
  rw [runIn_bind, runIn_get]
  dsimp only
  rw [runIn_bind, runIn_readOnly]
  rcases copyFromSlice_cases src chunk.prefixStart (chunk.prefixStart + 4)
    (if toLengthPrefixed then BigEndian.toBytes 4 chunk.dataSize else startCode) with ⟨out, hcopy⟩ |
    hcopy
  · rw [hcopy]
    rfl
  · rw [hcopy]
    rfl

/-- **The loop in the buffer** is the loop on its bytes. -/
theorem runIn_rewrites (toLengthPrefixed : Bool) (src : List UInt8) (done chunks : List NalChunk) :
    runIn (chunks.foldlM (AnnexBBuilder.rewriteIn toLengthPrefixed) done) src =
      written (chunks.foldlM (AnnexBBuilder.rewrite toLengthPrefixed) (src, done)) := by
  induction chunks generalizing src done with
  | nil => rfl
  | cons chunk chunks ih =>
    rw [List.foldlM_cons, List.foldlM_cons, runIn_bind, runIn_rewriteIn]
    cases AnnexBBuilder.rewrite toLengthPrefixed (src, done) chunk with
    | none => rfl
    | some result =>
      cases result with
      | error e => rfl
      | ok state => exact ih state.1 state.2

/-- The loop over the codes returns no error. -/
theorem rewrites_ne_error (toLengthPrefixed : Bool) (state : List UInt8 × List NalChunk)
    (chunks : List NalChunk) (e : NalError) :
    chunks.foldlM (AnnexBBuilder.rewrite toLengthPrefixed) state ≠ throw e := by
  induction chunks generalizing state with
  | nil =>
    intro h
    cases h
  | cons chunk chunks ih =>
    rw [List.foldlM_cons]
    unfold AnnexBBuilder.rewrite
    dsimp only
    rcases copyFromSlice_cases state.1 chunk.prefixStart (chunk.prefixStart + 4)
      (if toLengthPrefixed then BigEndian.toBytes 4 chunk.dataSize else startCode) with
      ⟨out, hcopy⟩ | hcopy
    · rw [hcopy, pure_bind, pure_bind]
      exact ih _
    · rw [hcopy]
      intro h
      cases h

section Results

variable {src : List UInt8} {toLengthPrefixed : Bool} {nalSizeLen : Nat} {chunks : List NalChunk}

theorem runIn_rebuild_ok {result : List UInt8 × List NalChunk}
    (h : AnnexBBuilder.rebuildFromChunks src chunks toLengthPrefixed nalSizeLen = pure result) :
    ∃ after, runIn (AnnexBBuilder.rebuildFromChunksIn chunks toLengthPrefixed nalSizeLen) src =
      some (.ok result, after) := by
  unfold AnnexBBuilder.rebuildFromChunksIn
  unfold AnnexBBuilder.rebuildFromChunks at h
  rw [runIn_bind, runIn_get]
  dsimp only
  split at h
  · rename_i hempty
    rw [if_pos hempty]
    obtain rfl := pure_inj h
    exact ⟨src, rfl⟩
  · rename_i hempty
    rw [if_neg hempty]
    split at h
    · rename_i hfast
      rw [if_pos hfast, runIn_bind, runIn_rewrites, h]
      exact ⟨[], rfl⟩
    · rename_i hfast
      rw [if_neg hfast]
      obtain ⟨builder, hbuilder, hfinish⟩ := bind_eq_pure.mp h
      rw [runIn_bind, runIn_readOnly, hbuilder]
      refine ⟨src, ?_⟩
      show runIn (readOnly (ExceptT.mk (some builder.finish))) src = _
      rw [runIn_readOnly, hfinish]
      rfl

theorem runIn_rebuild_error {e : NalError}
    (h : AnnexBBuilder.rebuildFromChunks src chunks toLengthPrefixed nalSizeLen = throw e) :
    runIn (AnnexBBuilder.rebuildFromChunksIn chunks toLengthPrefixed nalSizeLen) src =
      some (.error e, src) := by
  unfold AnnexBBuilder.rebuildFromChunksIn
  unfold AnnexBBuilder.rebuildFromChunks at h
  rw [runIn_bind, runIn_get]
  dsimp only
  split at h
  · cases h
  · rename_i hempty
    rw [if_neg hempty]
    split at h
    · exact (rewrites_ne_error _ _ _ _ h).elim
    · rename_i hfast
      rw [if_neg hfast, runIn_bind, runIn_readOnly]
      generalize chunks.foldlM (AnnexBBuilder.append src toLengthPrefixed nalSizeLen) .new =
        folded at h
      rcases folded with _ | ⟨other | builder⟩
      · cases h
      · obtain rfl := Except.error.inj (Option.some.inj h)
        rfl
      · show runIn (readOnly (ExceptT.mk (some builder.finish))) src = _
        have hfinish : (ExceptT.mk (some builder.finish) : Nal (List UInt8 × List NalChunk)) =
            throw e := h
        rw [runIn_readOnly, hfinish]
        rfl

/-- The chunks that a converter starts from. -/
def iterFor (converter : AnnexBConverter) (toLengthPrefixed : Bool) (src : List UInt8) :
    AnnexBIter :=
  if toLengthPrefixed then converter.annexBChunksIter src
  else converter.lengthPrefixedChunksIter src

theorem convert_eq {converter : AnnexBConverter}
    (hlen : 1 ≤ converter.nalSizeLen ∧ converter.nalSizeLen < 5) :
    converter.convert src toLengthPrefixed =
      (iterFor converter toLengthPrefixed src).collect >>= fun chunks =>
        AnnexBBuilder.rebuildFromChunks src chunks toLengthPrefixed converter.nalSizeLen >>=
          fun result => pure (result.1, { converter with offsetsCache := result.2 }) := by
  unfold AnnexBConverter.convert
  rw [if_neg (not_not.mpr hlen)]
  rfl

theorem convertIn_eq {converter : AnnexBConverter}
    (hlen : 1 ≤ converter.nalSizeLen ∧ converter.nalSizeLen < 5) :
    runIn (converter.convertIn toLengthPrefixed) src =
      runIn (readOnly (iterFor converter toLengthPrefixed src).collect >>= fun chunks =>
        AnnexBBuilder.rebuildFromChunksIn chunks toLengthPrefixed converter.nalSizeLen >>=
          fun result => pure (result.1, { converter with offsetsCache := result.2 })) src := by
  unfold AnnexBConverter.convertIn
  rw [if_neg (not_not.mpr hlen)]
  rfl

/-- **In the buffer of the caller** the conversion does what it does on the bytes. -/
theorem runIn_convert_ok {converter : AnnexBConverter} {result : List UInt8 × AnnexBConverter}
    (h : converter.convert src toLengthPrefixed = pure result) :
    ∃ after, runIn (converter.convertIn toLengthPrefixed) src = some (.ok result, after) := by
  by_cases hlen : 1 ≤ converter.nalSizeLen ∧ converter.nalSizeLen < 5
  · rw [convert_eq hlen] at h
    obtain ⟨found, hfound, hrest⟩ := bind_eq_pure.mp h
    obtain ⟨rebuilt, hrebuilt, hresult⟩ := bind_eq_pure.mp hrest
    obtain rfl := pure_inj hresult
    obtain ⟨after, hafter⟩ := runIn_rebuild_ok hrebuilt
    refine ⟨after, ?_⟩
    rw [convertIn_eq hlen, runIn_bind, runIn_readOnly, hfound]
    show runIn (AnnexBBuilder.rebuildFromChunksIn found toLengthPrefixed converter.nalSizeLen >>=
      fun result => pure (result.1, { converter with offsetsCache := result.2 })) src = _
    rw [runIn_bind, hafter]
    rfl
  · unfold AnnexBConverter.convert at h
    rw [if_pos hlen] at h
    cases h

/-- **A conversion that fails leaves the buffer alone.** -/
theorem runIn_convert_error {converter : AnnexBConverter} {e : NalError}
    (h : converter.convert src toLengthPrefixed = throw e) :
    runIn (converter.convertIn toLengthPrefixed) src = some (.error e, src) := by
  by_cases hlen : 1 ≤ converter.nalSizeLen ∧ converter.nalSizeLen < 5
  · rw [convert_eq hlen] at h
    rw [convertIn_eq hlen, runIn_bind, runIn_readOnly]
    generalize (iterFor converter toLengthPrefixed src).collect = collected at h
    rcases collected with _ | ⟨other | found⟩
    · cases h
    · obtain rfl := Except.error.inj (Option.some.inj h)
      rfl
    · have hrest : AnnexBBuilder.rebuildFromChunks src found toLengthPrefixed
          converter.nalSizeLen >>= (fun result =>
            pure (result.1, { converter with offsetsCache := result.2 })) = throw e := h
      show runIn (AnnexBBuilder.rebuildFromChunksIn found toLengthPrefixed converter.nalSizeLen >>=
        fun result => pure (result.1, { converter with offsetsCache := result.2 })) src = _
      generalize hrebuilt : AnnexBBuilder.rebuildFromChunks src found toLengthPrefixed
        converter.nalSizeLen = rebuilt at hrest
      rcases rebuilt with _ | ⟨other | result⟩
      · cases hrest
      · obtain rfl := Except.error.inj (Option.some.inj hrest)
        rw [runIn_bind, runIn_rebuild_error hrebuilt]
      · cases hrest
  · have hbad : ¬(1 ≤ converter.nalSizeLen ∧ converter.nalSizeLen ≤ 4) := fun hgood =>
      hlen ⟨hgood.1, Nat.lt_succ_of_le hgood.2⟩
    have hparam : converter.convert src toLengthPrefixed = throw .param := convert_badLen hbad
    rw [hparam] at h
    obtain rfl := Except.error.inj (Option.some.inj h)
    unfold AnnexBConverter.convertIn
    rw [if_pos hlen]
    rfl

end Results

end InPlace

/-! ## When a cache does no harm -/

/-- A conversion without a cache ends with a result or with an error. -/
theorem convert_scan_cases (nalSizeLen : Nat) (src : List UInt8) (toLengthPrefixed : Bool) :
    (∃ out chunks, AnnexBConverter.convert ⟨nalSizeLen, []⟩ src toLengthPrefixed =
        pure (out, ⟨nalSizeLen, chunks⟩)) ∨
      ∃ e, AnnexBConverter.convert ⟨nalSizeLen, []⟩ src toLengthPrefixed = throw e := by
  by_cases hlen : 1 ≤ nalSizeLen ∧ nalSizeLen ≤ 4
  · have hiter : ∀ bytes width offset,
        iterFor ⟨nalSizeLen, []⟩ toLengthPrefixed src = .lengthPrefixed bytes width offset →
          1 ≤ width := by
      intro bytes width offset h
      cases toLengthPrefixed with
      | true => cases h
      | false =>
        cases h
        exact hlen.1
    have hends := collectFuel_ne_none hiter (Nat.lt_succ_self _)
    have hconvert := @convert_eq src toLengthPrefixed ⟨nalSizeLen, []⟩
      ⟨hlen.1, Nat.lt_succ_of_le hlen.2⟩
    cases hcollect : (iterFor ⟨nalSizeLen, []⟩ toLengthPrefixed src).collect with
    | none => exact (hends hcollect).elim
    | some result =>
      cases result with
      | error e =>
        right
        refine ⟨e, ?_⟩
        rw [hconvert, hcollect]
        rfl
      | ok chunks =>
        have hscan : AnnexBConverter.scanOnly src nalSizeLen (!toLengthPrefixed) =
            pure chunks := by
          rw [scanOnly_eq hlen]
          cases toLengthPrefixed <;> exact hcollect
        obtain ⟨nals, hnals, rfl, -⟩ := (scanOnly_iff hlen).mp hscan
        have hfitting := convert_fits hlen hnals
        have hrefused := convert_refused hlen hnals
        rw [Bool.not_not] at hfitting hrefused
        by_cases hfits : ∀ nal ∈ nals, Fits toLengthPrefixed nalSizeLen nal.length
        · exact .inl ⟨_, _, hfitting hfits⟩
        · exact .inr ⟨_, hrefused hfits⟩
  · exact .inr ⟨.param, convert_badLen hlen⟩

/-- **The cache does no harm**: the conversion fails and leaves the buffer alone, or it gives the
bytes and the chunks that it gives without a cache. -/
def Harmless (nalSizeLen : Nat) (cache : List NalChunk) (src : List UInt8)
    (toLengthPrefixed : Bool) : Prop :=
  (∃ e, (AnnexBConverter.convertIn ⟨nalSizeLen, cache⟩ toLengthPrefixed).run.run src =
      some (.error e, src)) ∨
    ∃ out chunks after after',
      (AnnexBConverter.convertIn ⟨nalSizeLen, cache⟩ toLengthPrefixed).run.run src =
          some (.ok (out, ⟨nalSizeLen, chunks⟩), after) ∧
        (AnnexBConverter.convertIn ⟨nalSizeLen, []⟩ toLengthPrefixed).run.run src =
          some (.ok (out, ⟨nalSizeLen, chunks⟩), after')

section Harmless

variable {nalSizeLen : Nat} {cache : List NalChunk} {src : List UInt8} {toLengthPrefixed : Bool}

theorem harmless_of_error {e : NalError}
    (h : AnnexBConverter.convert ⟨nalSizeLen, cache⟩ src toLengthPrefixed = throw e) :
    Harmless nalSizeLen cache src toLengthPrefixed :=
  .inl ⟨e, runIn_convert_error h⟩

theorem harmless_of_same
    (h : AnnexBConverter.convert ⟨nalSizeLen, cache⟩ src toLengthPrefixed =
      AnnexBConverter.convert ⟨nalSizeLen, []⟩ src toLengthPrefixed) :
    Harmless nalSizeLen cache src toLengthPrefixed := by
  rcases convert_scan_cases nalSizeLen src toLengthPrefixed with ⟨out, chunks, hok⟩ | ⟨e, herror⟩
  · obtain ⟨after, hafter⟩ := runIn_convert_ok (h.trans hok)
    obtain ⟨after', hafter'⟩ := runIn_convert_ok hok
    exact .inr ⟨out, chunks, after, after', hafter, hafter'⟩
  · exact harmless_of_error (h.trans herror)

/-- A cache that passes, over lengths that fit, does harm unless it covers the buffer. -/
theorem covers_of_harmless (hlen : 1 ≤ nalSizeLen ∧ nalSizeLen ≤ 4) (hsome : cache ≠ [])
    (hverified : Verified (kindFor (!toLengthPrefixed) nalSizeLen) src 0 cache)
    (hfits : ∀ chunk ∈ cache, Fits toLengthPrefixed nalSizeLen chunk.dataSize)
    (h : Harmless nalSizeLen cache src toLengthPrefixed) :
    Tiles src 0 cache ∧
      (toLengthPrefixed = true → ∀ nal ∈ payloads src cache, StartCodeFree nal) := by
  obtain ⟨out, chunks, hrebuild, hsizes⟩ := rebuild_verified hlen hsome hverified hfits
  have hcached : AnnexBConverter.convert ⟨nalSizeLen, cache⟩ src toLengthPrefixed =
      pure (out, ⟨nalSizeLen, chunks⟩) := by
    rw [convert_verified hlen hsome hverified, hrebuild]
    rfl
  obtain ⟨after, hafter⟩ := runIn_convert_ok hcached
  unfold runIn at hafter
  rcases h with ⟨e, herror⟩ | ⟨out', chunks', after', after'', hsame, hscanned⟩
  · rw [hafter] at herror
    cases herror
  · rw [hafter] at hsame
    obtain ⟨hresult, -⟩ := Prod.mk.inj (Option.some.inj hsame)
    obtain ⟨rfl, hconverter⟩ := Prod.mk.inj (Except.ok.inj hresult)
    obtain rfl := congrArg AnnexBConverter.offsetsCache hconverter
    apply covers_of_same hlen hverified hsizes
    rcases convert_scan_cases nalSizeLen src toLengthPrefixed with
      ⟨out'', chunks'', hok⟩ | ⟨e, herror⟩
    · obtain ⟨final, hfinal⟩ := runIn_convert_ok hok
      unfold runIn at hfinal
      rw [hscanned] at hfinal
      obtain ⟨hpair, -⟩ := Prod.mk.inj (Option.some.inj hfinal)
      rw [hok, ← Except.ok.inj hpair]
    · have hfinal := runIn_convert_error herror
      unfold runIn at hfinal
      rw [hscanned] at hfinal
      cases hfinal

end Harmless

/-- **A cache is harmless exactly if** it is empty or refused (the length of the prefixes is not
supported, a chunk does not pass, or a length does not fit its prefix of less than four bytes), or
if its chunks cover the buffer and, for start codes, none of them has one inside. -/
theorem harmless_iff (nalSizeLen : Nat) (cache : List NalChunk) (src : List UInt8)
    (toLengthPrefixed : Bool) :
    Harmless nalSizeLen cache src toLengthPrefixed ↔
      cache = [] ∨ ¬(1 ≤ nalSizeLen ∧ nalSizeLen ≤ 4) ∨
        ¬ Verified (kindFor (!toLengthPrefixed) nalSizeLen) src 0 cache ∨
        (toLengthPrefixed = true ∧ nalSizeLen ≠ 4 ∧
          ∃ chunk ∈ cache, 256 ^ nalSizeLen ≤ chunk.dataSize) ∨
        (Tiles src 0 cache ∧
          (toLengthPrefixed = true → ∀ nal ∈ payloads src cache, StartCodeFree nal)) := by
  by_cases hsome : cache = []
  · subst hsome
    exact iff_of_true (harmless_of_same rfl) (.inl rfl)
  by_cases hlen : 1 ≤ nalSizeLen ∧ nalSizeLen ≤ 4
  swap
  · exact iff_of_true (harmless_of_error (convert_badLen hlen)) (.inr (.inl hlen))
  by_cases hverified : Verified (kindFor (!toLengthPrefixed) nalSizeLen) src 0 cache
  swap
  · exact iff_of_true (harmless_of_error (convert_unverified hlen hsome hverified))
      (.inr (.inr (.inl hverified)))
  by_cases hfits : ∀ chunk ∈ cache, Fits toLengthPrefixed nalSizeLen chunk.dataSize
  · constructor
    · intro h
      exact .inr (.inr (.inr (.inr (covers_of_harmless hlen hsome hverified hfits h))))
    · rintro (hempty | hbad | hunverified | ⟨hto, hfour, chunk, hmem, hlarge⟩ | ⟨htiles, hfree⟩)
      · exact (hsome hempty).elim
      · exact (hbad hlen).elim
      · exact (hunverified hverified).elim
      · rcases hfits chunk hmem hto with hwide | hsmall
        · exact (hfour hwide).elim
        · exact absurd hsmall (Nat.not_lt.mpr hlarge)
      · exact harmless_of_same (same_of_covers hlen hsome hverified htiles hfree)
  · have hnot : ∃ chunk ∈ cache, ¬ Fits toLengthPrefixed nalSizeLen chunk.dataSize := by
      by_contra hnone
      refine hfits fun chunk hmem => ?_
      by_contra hchunk
      exact hnone ⟨chunk, hmem, hchunk⟩
    obtain ⟨chunk, hmem, hlarge⟩ := hnot
    have hto : toLengthPrefixed = true := by
      by_contra hno
      exact hlarge fun hyes => (hno hyes).elim
    have hfour : nalSizeLen ≠ 4 := fun hwide => hlarge fun _ => .inl hwide
    have hsize : 256 ^ nalSizeLen ≤ chunk.dataSize :=
      Nat.le_of_not_lt fun hsmall => hlarge fun _ => .inr hsmall
    have hrefused : AnnexBConverter.convert ⟨nalSizeLen, cache⟩ src toLengthPrefixed =
        throw .param := by
      rw [convert_verified hlen hsome hverified,
        rebuild_refused hlen hsome hverified hfour ⟨chunk, hmem, hlarge⟩]
      rfl
    exact iff_of_true (harmless_of_error hrefused)
      (.inr (.inr (.inr (.inl ⟨hto, hfour, chunk, hmem, hsize⟩))))

/-- **The cache of another frame is believed**: the second frame loses its last byte, since its
length is taken from the first. -/
theorem stale_cache_believed :
    ∃ cache, AnnexBConverter.convert ⟨4, []⟩ [0, 0, 0, 1, 0x41, 0x42] true =
        pure ([0, 0, 0, 2, 0x41, 0x42], ⟨4, cache⟩) ∧
      (AnnexBConverter.convertIn ⟨4, cache⟩ true).run.run [0, 0, 0, 1, 0x41, 0x42, 0x43] =
        some (.ok ([0, 0, 0, 2, 0x41, 0x42, 0x43], ⟨4, cache⟩), []) ∧
      (AnnexBConverter.convertIn ⟨4, []⟩ true).run.run [0, 0, 0, 1, 0x41, 0x42, 0x43] =
        some (.ok ([0, 0, 0, 3, 0x41, 0x42, 0x43], ⟨4, [⟨0, 4, 3⟩]⟩), []) ∧
      ¬ Harmless 4 cache [0, 0, 0, 1, 0x41, 0x42, 0x43] true := by
  have hcached : (AnnexBConverter.convertIn ⟨4, [⟨0, 4, 2⟩]⟩ true).run.run
      [0, 0, 0, 1, 0x41, 0x42, 0x43] =
        some (.ok ([0, 0, 0, 2, 0x41, 0x42, 0x43], ⟨4, [⟨0, 4, 2⟩]⟩), []) := rfl
  have hscanned : (AnnexBConverter.convertIn ⟨4, []⟩ true).run.run
      [0, 0, 0, 1, 0x41, 0x42, 0x43] =
        some (.ok ([0, 0, 0, 3, 0x41, 0x42, 0x43], ⟨4, [⟨0, 4, 3⟩]⟩), []) := rfl
  refine ⟨[⟨0, 4, 2⟩], rfl, hcached, hscanned, ?_⟩
  rintro (⟨e, herror⟩ | ⟨out, chunks, after, after', hsame, hother⟩)
  · rw [hcached] at herror
    cases herror
  · rw [hcached] at hsame
    rw [hscanned] at hother
    obtain ⟨hfirst, -⟩ := Prod.mk.inj (Option.some.inj hsame)
    obtain ⟨hsecond, -⟩ := Prod.mk.inj (Option.some.inj hother)
    have hbytes := congrArg Prod.fst (Except.ok.inj hfirst)
    have hbytes' := congrArg Prod.fst (Except.ok.inj hsecond)
    exact absurd (hbytes.trans hbytes'.symm) (by decide)

end Catplay.Analysis.Video
