import Catplay.Analysis.Video.Units

/-!
# Conversion of the units

A conversion writes another code in front of each unit and leaves the units alone, over the old
codes where both are of four bytes and into a new buffer otherwise (`rebuild_eq_scratch`). What a scan
accepts comes back from there and back (`converts_iff`), except that a length of four bytes is cut
off where it does not fit.
-/

set_option autoImplicit false

namespace Catplay.Analysis.Video

open Catplay.Library Catplay.Model.Video

/-- The code in front of a unit, in either kind of buffer. -/
def codeOf (lengthPrefixed : Bool) (nalSizeLen : Nat) : List UInt8 → List UInt8 :=
  if lengthPrefixed then lengthOf nalSizeLen else started

/-- The length of the code. -/
def widthOf (lengthPrefixed : Bool) (nalSizeLen : Nat) : Nat :=
  if lengthPrefixed then nalSizeLen else 4

theorem length_codeOf (lengthPrefixed : Bool) (nalSizeLen : Nat) (nal : List UInt8) :
    (codeOf lengthPrefixed nalSizeLen nal).length = widthOf lengthPrefixed nalSizeLen := by
  cases lengthPrefixed with
  | true => exact length_lengthOf nalSizeLen nal
  | false => rfl

/-! ## The scan -/

/-- The units can be told apart behind their codes. -/
def Separable (lengthPrefixed : Bool) (nalSizeLen : Nat) (nals : List (List UInt8)) : Prop :=
  ∀ nal ∈ nals, if lengthPrefixed then nal.length < 256 ^ nalSizeLen else StartCodeFree nal

theorem scanOnly_eq {nalSizeLen : Nat} (hlen : 1 ≤ nalSizeLen ∧ nalSizeLen ≤ 4) (src : List UInt8)
    (lengthPrefixed : Bool) :
    AnnexBConverter.scanOnly src nalSizeLen lengthPrefixed =
      (if lengthPrefixed then AnnexBIter.lengthPrefixed src nalSizeLen 0
        else .annexB src 0 false).collect := by
  unfold AnnexBConverter.scanOnly
  rw [if_neg (not_not.mpr ⟨hlen.1, Nat.lt_succ_of_le hlen.2⟩)]
  cases lengthPrefixed <;> rfl

theorem length_le_joined (lengthPrefixed : Bool) {nalSizeLen : Nat} (hlen : 1 ≤ nalSizeLen)
    (nals : List (List UInt8)) :
    nals.length ≤ (joined (codeOf lengthPrefixed nalSizeLen) nals).length := by
  induction nals with
  | nil => exact Nat.le_refl 0
  | cons nal nals ih =>
    have hwidth : 1 ≤ widthOf lengthPrefixed nalSizeLen := by
      cases lengthPrefixed with
      | true => exact hlen
      | false => exact (by decide : 1 ≤ 4)
    rw [joined_cons, List.length_append, List.length_append, length_codeOf, List.length_cons]
    omega

/-- **What a scan accepts, and what it finds.** -/
theorem scanOnly_iff {nalSizeLen : Nat} (hlen : 1 ≤ nalSizeLen ∧ nalSizeLen ≤ 4) {src : List UInt8}
    {lengthPrefixed : Bool} {chunks : List NalChunk} :
    AnnexBConverter.scanOnly src nalSizeLen lengthPrefixed = pure chunks ↔
      ∃ nals, Separable lengthPrefixed nalSizeLen nals ∧
        src = joined (codeOf lengthPrefixed nalSizeLen) nals ∧
        chunks = unitsAt (widthOf lengthPrefixed nalSizeLen) 0 nals := by
  rw [scanOnly_eq hlen]
  constructor
  · intro h
    cases lengthPrefixed with
    | true =>
      obtain ⟨nals, hsrc, hchunks, hall⟩ := scan_lengthPrefixed (Nat.zero_le src.length) h
      exact ⟨nals, hall, hsrc, hchunks⟩
    | false =>
      obtain ⟨nals, hsrc, hchunks, hall⟩ := scan_annexB (Nat.zero_le src.length)
        (fun hdone => by cases hdone) h
      exact ⟨nals, hall, hsrc, hchunks⟩
  · rintro ⟨nals, hall, rfl, rfl⟩
    have hcount := length_le_joined lengthPrefixed hlen.1 nals
    cases lengthPrefixed with
    | true => exact collect_lengthPrefixed hlen [] hall (Nat.lt_succ_of_le hcount)
    | false => exact collect_annexB [] hall (Nat.lt_succ_of_le (Nat.le_succ_of_le hcount))

/-! ## The rebuilding path -/

/-- A length fits its prefix. Four bytes take any length, and cut it off. -/
def Fits (toLengthPrefixed : Bool) (nalSizeLen size : Nat) : Prop :=
  toLengthPrefixed = true → nalSizeLen = 4 ∨ size < 256 ^ nalSizeLen

/-- The chunk lies inside the buffer. -/
def Inside (src : List UInt8) (chunk : NalChunk) : Prop :=
  chunk.prefixStart + chunk.prefixLen + chunk.dataSize ≤ src.length

section Append

variable {src : List UInt8} {toLengthPrefixed : Bool} {nalSizeLen : Nat} {chunk : NalChunk}

/-- The payload of a chunk. -/
def payload (src : List UInt8) (chunk : NalChunk) : List UInt8 :=
  (src.drop (chunk.prefixStart + chunk.prefixLen)).take chunk.dataSize

theorem length_payload (h : Inside src chunk) : (payload src chunk).length = chunk.dataSize := by
  unfold payload Inside at *
  rw [List.length_take, List.length_drop]
  omega

/-- The prefix of a unit is begun. -/
theorem push_fits (hlen : 1 ≤ nalSizeLen ∧ nalSizeLen ≤ 4) (out : List UInt8)
    (chunks : List NalChunk) {nal : List UInt8} (hfits : Fits toLengthPrefixed nalSizeLen nal.length) :
    (if toLengthPrefixed then
        AnnexBBuilder.pushLengthPrefix ⟨out, chunks, none⟩ nalSizeLen nal.length
      else AnnexBBuilder.pushStartCode ⟨out, chunks, none⟩ nal.length) =
      .ok ⟨out ++ codeOf toLengthPrefixed nalSizeLen nal, chunks,
        some ⟨out.length, widthOf toLengthPrefixed nalSizeLen, nal.length⟩⟩ := by
  cases toLengthPrefixed with
  | true =>
    have hbegin : AnnexBBuilder.beginChunk ⟨out, chunks, none⟩ nalSizeLen nal.length =
        .ok ⟨out, chunks, some ⟨out.length, nalSizeLen, nal.length⟩⟩ := by
      unfold AnnexBBuilder.beginChunk
      rw [if_neg]
      rintro (hpending | hzero)
      · cases hpending
      · omega
    have hguard : nalSizeLen = 4 ∨ 1 ≤ nalSizeLen ∧ nalSizeLen ≤ 3 ∧
        nal.length < 256 ^ nalSizeLen := by
      rcases hfits rfl with hfour | hlt
      · exact .inl hfour
      · by_cases hfour : nalSizeLen = 4
        · exact .inl hfour
        · exact .inr ⟨hlen.1, by omega, hlt⟩
    rw [if_pos rfl]
    unfold AnnexBBuilder.pushLengthPrefix
    rw [hbegin]
    show (if _ then _ else _) = _
    rw [if_pos hguard]
    rfl
  | false => rfl

theorem push_refused (hlen : 1 ≤ nalSizeLen ∧ nalSizeLen ≤ 4) (out : List UInt8)
    (chunks : List NalChunk) {size : Nat} (hnot : ¬ Fits toLengthPrefixed nalSizeLen size) :
    (if toLengthPrefixed then AnnexBBuilder.pushLengthPrefix ⟨out, chunks, none⟩ nalSizeLen size
      else AnnexBBuilder.pushStartCode ⟨out, chunks, none⟩ size) = .error .param := by
  cases toLengthPrefixed with
  | true =>
    have hbegin : AnnexBBuilder.beginChunk ⟨out, chunks, none⟩ nalSizeLen size =
        .ok ⟨out, chunks, some ⟨out.length, nalSizeLen, size⟩⟩ := by
      unfold AnnexBBuilder.beginChunk
      rw [if_neg]
      rintro (hpending | hzero)
      · cases hpending
      · omega
    rw [if_pos rfl]
    unfold AnnexBBuilder.pushLengthPrefix
    rw [hbegin]
    show (if _ then _ else _) = _
    rw [if_neg]
    rintro (hfour | ⟨-, -, hlt⟩)
    · exact hnot fun _ => .inl hfour
    · exact hnot fun _ => .inr hlt
  | false => exact (hnot fun hfalse => by cases hfalse).elim

theorem append_eq (builder : AnnexBBuilder) :
    AnnexBBuilder.append src toLengthPrefixed nalSizeLen builder chunk =
      (do
        let builder ← AnnexBBuilder.append.liftExcept
          (if toLengthPrefixed then builder.pushLengthPrefix nalSizeLen chunk.dataSize
            else builder.pushStartCode chunk.dataSize)
        let data ← slice src (chunk.prefixStart + chunk.prefixLen)
          (chunk.prefixStart + chunk.prefixLen + chunk.dataSize)
        AnnexBBuilder.append.liftExcept (builder.pushData data)) := by
  cases toLengthPrefixed <;> rfl

/-- **A turn of the rebuilding path** puts a unit behind the others. -/
theorem append_fits (hlen : 1 ≤ nalSizeLen ∧ nalSizeLen ≤ 4) (out : List UInt8)
    (chunks : List NalChunk) (hinside : Inside src chunk)
    (hfits : Fits toLengthPrefixed nalSizeLen chunk.dataSize) :
    AnnexBBuilder.append src toLengthPrefixed nalSizeLen ⟨out, chunks, none⟩ chunk =
      pure ⟨out ++ (codeOf toLengthPrefixed nalSizeLen (payload src chunk) ++ payload src chunk),
        chunks ++ [⟨out.length, widthOf toLengthPrefixed nalSizeLen, (payload src chunk).length⟩],
        none⟩ := by
  have hlength := length_payload hinside
  rw [← hlength] at hfits
  have hpush := push_fits hlen out chunks hfits
  have hslice : slice src (chunk.prefixStart + chunk.prefixLen)
      (chunk.prefixStart + chunk.prefixLen + chunk.dataSize) = pure (payload src chunk) := by
    unfold slice
    rw [if_pos ⟨Nat.le_add_right _ _, hinside⟩, Nat.add_sub_cancel_left]
    rfl
  rw [hlength] at hpush
  rw [append_eq, hpush]
  show slice src _ _ >>= _ = _
  rw [hslice, pure_bind]
  unfold AnnexBBuilder.append.liftExcept AnnexBBuilder.pushData
  dsimp only
  rw [hlength, if_neg (not_not.mpr rfl), List.append_assoc]
  rfl

theorem append_refused (hlen : 1 ≤ nalSizeLen ∧ nalSizeLen ≤ 4) (out : List UInt8)
    (chunks : List NalChunk) (hnot : ¬ Fits toLengthPrefixed nalSizeLen chunk.dataSize) :
    AnnexBBuilder.append src toLengthPrefixed nalSizeLen ⟨out, chunks, none⟩ chunk =
      throw .param := by
  have hpush := push_refused hlen out chunks hnot
  rw [append_eq, hpush]
  rfl

end Append

theorem payloads_cons (src : List UInt8) (chunk : NalChunk) (chunks : List NalChunk) :
    payloads src (chunk :: chunks) = payload src chunk :: payloads src chunks := List.map_cons

/-- The rebuilding path by itself. -/
def rebuildFromScratch (src : List UInt8) (chunks : List NalChunk) (toLengthPrefixed : Bool)
    (nalSizeLen : Nat) : Nal (List UInt8 × List NalChunk) := do
  let builder ← chunks.foldlM (AnnexBBuilder.append src toLengthPrefixed nalSizeLen) .new
  ExceptT.mk (some builder.finish)

section Scratch

variable {src : List UInt8} {toLengthPrefixed : Bool} {nalSizeLen : Nat} {chunks : List NalChunk}

theorem foldlM_append_fits (hlen : 1 ≤ nalSizeLen ∧ nalSizeLen ≤ 4)
    (hinside : ∀ chunk ∈ chunks, Inside src chunk)
    (hfits : ∀ chunk ∈ chunks, Fits toLengthPrefixed nalSizeLen chunk.dataSize)
    (out : List UInt8) (done : List NalChunk) :
    chunks.foldlM (AnnexBBuilder.append src toLengthPrefixed nalSizeLen) ⟨out, done, none⟩ =
      pure ⟨out ++ joined (codeOf toLengthPrefixed nalSizeLen) (payloads src chunks),
        done ++ unitsAt (widthOf toLengthPrefixed nalSizeLen) out.length (payloads src chunks),
        none⟩ := by
  induction chunks generalizing out done with
  | nil =>
    rw [List.foldlM_nil]
    simp [payloads, joined, unitsAt]
  | cons chunk chunks ih =>
    have hthis := append_fits hlen out done (hinside chunk List.mem_cons_self)
      (hfits chunk List.mem_cons_self)
    rw [List.foldlM_cons, hthis, pure_bind,
      ih (fun other hmem => hinside other (List.mem_cons_of_mem _ hmem))
        (fun other hmem => hfits other (List.mem_cons_of_mem _ hmem)),
      length_front (length_codeOf toLengthPrefixed nalSizeLen), payloads_cons, append_joined_cons, unitsAt, List.append_assoc done]
    rfl

theorem foldlM_append_refused (hlen : 1 ≤ nalSizeLen ∧ nalSizeLen ≤ 4)
    (hinside : ∀ chunk ∈ chunks, Inside src chunk)
    (hnot : ∃ chunk ∈ chunks, ¬ Fits toLengthPrefixed nalSizeLen chunk.dataSize)
    (out : List UInt8) (done : List NalChunk) :
    chunks.foldlM (AnnexBBuilder.append src toLengthPrefixed nalSizeLen) ⟨out, done, none⟩ =
      throw .param := by
  induction chunks generalizing out done with
  | nil =>
    obtain ⟨chunk, hmem, -⟩ := hnot
    cases hmem
  | cons chunk chunks ih =>
    rw [List.foldlM_cons]
    by_cases hfits : Fits toLengthPrefixed nalSizeLen chunk.dataSize
    · obtain ⟨other, hmem, hother⟩ := hnot
      rcases List.mem_cons.mp hmem with rfl | hin
      · exact (hother hfits).elim
      · rw [append_fits hlen out done (hinside chunk List.mem_cons_self) hfits, pure_bind]
        exact ih (fun other hmem => hinside other (List.mem_cons_of_mem _ hmem))
          ⟨other, hin, hother⟩ _ _
    · rw [append_refused hlen out done hfits]
      rfl

/-- **What is rebuilt** are the payloads, each behind its new code. -/
theorem scratch_fits (hlen : 1 ≤ nalSizeLen ∧ nalSizeLen ≤ 4)
    (hinside : ∀ chunk ∈ chunks, Inside src chunk)
    (hfits : ∀ chunk ∈ chunks, Fits toLengthPrefixed nalSizeLen chunk.dataSize) :
    rebuildFromScratch src chunks toLengthPrefixed nalSizeLen =
      pure (joined (codeOf toLengthPrefixed nalSizeLen) (payloads src chunks),
        unitsAt (widthOf toLengthPrefixed nalSizeLen) 0 (payloads src chunks)) := by
  unfold rebuildFromScratch AnnexBBuilder.new
  rw [foldlM_append_fits hlen hinside hfits [] [], pure_bind]
  rfl

theorem scratch_refused (hlen : 1 ≤ nalSizeLen ∧ nalSizeLen ≤ 4)
    (hinside : ∀ chunk ∈ chunks, Inside src chunk)
    (hnot : ∃ chunk ∈ chunks, ¬ Fits toLengthPrefixed nalSizeLen chunk.dataSize) :
    rebuildFromScratch src chunks toLengthPrefixed nalSizeLen = throw .param := by
  unfold rebuildFromScratch AnnexBBuilder.new
  rw [foldlM_append_refused hlen hinside hnot [] []]
  rfl

end Scratch

/-! ## The path in place -/

/-- **The fast path** writes over the codes. -/
theorem rewrite_joined {code : List UInt8 → List UInt8} (hcode : ∀ nal, (code nal).length = 4)
    (toLengthPrefixed : Bool) (front : List UInt8) (nals : List (List UInt8))
    (done : List NalChunk) :
    (unitsAt 4 front.length nals).foldlM (AnnexBBuilder.rewrite toLengthPrefixed)
        (front ++ joined code nals, done) =
      pure (front ++ joined (codeOf toLengthPrefixed 4) nals,
        done ++ unitsAt 4 front.length nals) := by
  have hnew (nal : List UInt8) : (codeOf toLengthPrefixed 4 nal).length = 4 := by
    rw [length_codeOf]
    cases toLengthPrefixed <;> rfl
  induction nals generalizing front done with
  | nil =>
    show pure (front ++ joined code [], done) = _
    rw [unitsAt, List.append_nil]
    rfl
  | cons nal nals ih =>
    have hover : Buffer.overwrite (front ++ (code nal ++ nal) ++ joined code nals) front.length
        (codeOf toLengthPrefixed 4 nal) =
          front ++ (codeOf toLengthPrefixed 4 nal ++ nal) ++ joined code nals := by
      have hcut : (front ++ code nal).length = front.length + 4 := by
        rw [List.length_append, hcode]
      have hbefore : (front ++ (code nal ++ nal) ++ joined code nals).take front.length = front := by
        rw [List.append_assoc, List.take_left]
      have hbehind : (front ++ (code nal ++ nal) ++ joined code nals).drop (front.length + 4) =
          nal ++ joined code nals := by
        rw [← hcut, ← List.append_assoc front, List.append_assoc (front ++ code nal), List.drop_left]
      unfold Buffer.overwrite
      rw [hnew, hbefore, hbehind, ← List.append_assoc front, List.append_assoc,
        List.append_assoc, List.append_assoc]
    have hcopy : copyFromSlice (front ++ (code nal ++ nal) ++ joined code nals) front.length
        (front.length + 4) (codeOf toLengthPrefixed 4 nal) =
          pure (front ++ (codeOf toLengthPrefixed 4 nal ++ nal) ++ joined code nals) := by
      unfold copyFromSlice
      rw [if_pos, hover]
      refine ⟨Nat.le_add_right _ _, ?_, ?_⟩
      · rw [List.length_append, length_front hcode]
        omega
      · rw [hnew]
        omega
    have hcodes : (if toLengthPrefixed = true then BigEndian.toBytes 4 nal.length else startCode) =
        codeOf toLengthPrefixed 4 nal := by
      cases toLengthPrefixed <;> rfl
    have hturn : AnnexBBuilder.rewrite toLengthPrefixed
        (front ++ (code nal ++ nal) ++ joined code nals, done) ⟨front.length, 4, nal.length⟩ =
          pure (front ++ (codeOf toLengthPrefixed 4 nal ++ nal) ++ joined code nals,
            done ++ [⟨front.length, 4, nal.length⟩]) := by
      unfold AnnexBBuilder.rewrite
      dsimp only
      rw [hcodes, hcopy, pure_bind]
    rw [append_joined_cons, unitsAt, List.foldlM_cons, hturn, pure_bind]
    have hrest := ih (front ++ (codeOf toLengthPrefixed 4 nal ++ nal))
      (done ++ [⟨front.length, 4, nal.length⟩])
    rw [length_front hnew] at hrest
    rw [hrest, append_joined_cons, List.append_assoc done]
    rfl

/-! ## The units of a scanned buffer -/

section Scanned

variable {nalSizeLen : Nat} {lengthPrefixed : Bool}

theorem inside_unitsAt {code : List UInt8 → List UInt8} {width : Nat}
    (hcode : ∀ nal, (code nal).length = width) (front : List UInt8) (nals : List (List UInt8)) :
    ∀ chunk ∈ unitsAt width front.length nals, Inside (front ++ joined code nals) chunk := by
  induction nals generalizing front with
  | nil =>
    intro chunk hmem
    cases hmem
  | cons nal nals ih =>
    intro chunk hmem
    have hrest := ih (front ++ (code nal ++ nal))
    rw [length_front hcode] at hrest
    rw [append_joined_cons]
    rcases List.mem_cons.mp hmem with rfl | hin
    · show front.length + width + nal.length ≤ _
      rw [List.length_append, length_front hcode]
      exact Nat.le_add_right _ _
    · exact hrest chunk hin

theorem dataSize_unitsAt {width position : Nat} {nals : List (List UInt8)} :
    (unitsAt width position nals).map (·.dataSize) = nals.map List.length := by
  induction nals generalizing position with
  | nil => rfl
  | cons nal nals ih => rw [unitsAt, List.map_cons, List.map_cons, ih]

theorem forall_dataSize {width position : Nat} {nals : List (List UInt8)} {P : Nat → Prop} :
    (∀ chunk ∈ unitsAt width position nals, P chunk.dataSize) ↔ ∀ nal ∈ nals, P nal.length := by
  have hleft : (∀ chunk ∈ unitsAt width position nals, P chunk.dataSize) ↔
      ∀ size ∈ (unitsAt width position nals).map (·.dataSize), P size := by
    rw [List.forall_mem_map]
  rw [hleft, dataSize_unitsAt, List.forall_mem_map]

/-- **Both paths rebuild alike** what a scan has found. -/
theorem rebuild_eq_scratch (hlen : 1 ≤ nalSizeLen ∧ nalSizeLen ≤ 4) (nals : List (List UInt8)) :
    AnnexBBuilder.rebuildFromChunks (joined (codeOf lengthPrefixed nalSizeLen) nals)
        (unitsAt (widthOf lengthPrefixed nalSizeLen) 0 nals) (!lengthPrefixed) nalSizeLen =
      rebuildFromScratch (joined (codeOf lengthPrefixed nalSizeLen) nals)
        (unitsAt (widthOf lengthPrefixed nalSizeLen) 0 nals) (!lengthPrefixed) nalSizeLen := by
  have hwidth := length_codeOf lengthPrefixed nalSizeLen
  cases nals with
  | nil => rfl
  | cons nal nals =>
    have hsome : ¬ ((joined (codeOf lengthPrefixed nalSizeLen) (nal :: nals)).isEmpty = true ∨
        (unitsAt (widthOf lengthPrefixed nalSizeLen) 0 (nal :: nals)).isEmpty = true) := by
      rintro (hempty | hempty)
      · have hlength := congrArg List.length (List.isEmpty_iff.mp hempty)
        rw [joined_cons, List.length_append, List.length_append, hwidth, List.length_nil] at hlength
        cases lengthPrefixed with
        | true =>
          have hwide : widthOf true nalSizeLen = nalSizeLen := rfl
          omega
        | false =>
          have hwide : widthOf false nalSizeLen = 4 := rfl
          omega
      · cases hempty
    unfold AnnexBBuilder.rebuildFromChunks
    rw [if_neg hsome]
    split
    · rename_i hfast
      obtain ⟨rfl, -⟩ := hfast
      have hfour : widthOf lengthPrefixed 4 = 4 := by cases lengthPrefixed <;> rfl
      rw [hfour] at hwidth ⊢
      have hinside := inside_unitsAt hwidth [] (nal :: nals)
      have hrewrite := rewrite_joined hwidth (!lengthPrefixed) [] (nal :: nals) []
      have hpayloads := payloads_joined hwidth [] (nal :: nals)
      have hscratch := scratch_fits hlen hinside
        (fun chunk _ => (fun _ => .inl rfl : Fits (!lengthPrefixed) 4 chunk.dataSize))
      have hback : widthOf (!lengthPrefixed) 4 = 4 := by cases lengthPrefixed <;> rfl
      rw [hpayloads, hback] at hscratch
      exact hrewrite.trans hscratch.symm
    · rfl

/-- **A conversion of what a scan accepts**: the same units behind other codes, or an error where
a length does not fit. -/
theorem convert_scanned (hlen : 1 ≤ nalSizeLen ∧ nalSizeLen ≤ 4) {nals : List (List UInt8)}
    (hnals : Separable lengthPrefixed nalSizeLen nals) :
    AnnexBConverter.convert ⟨nalSizeLen, []⟩ (joined (codeOf lengthPrefixed nalSizeLen) nals)
        (!lengthPrefixed) =
      (do
        let (out, chunks) ← rebuildFromScratch (joined (codeOf lengthPrefixed nalSizeLen) nals)
          (unitsAt (widthOf lengthPrefixed nalSizeLen) 0 nals) (!lengthPrefixed) nalSizeLen
        pure (out, ⟨nalSizeLen, chunks⟩)) := by
  have hscan := (scanOnly_iff hlen).mpr ⟨nals, hnals, rfl, rfl⟩
  rw [scanOnly_eq hlen] at hscan
  have hiter : (if (!lengthPrefixed) = true then
        AnnexBConverter.annexBChunksIter ⟨nalSizeLen, []⟩
          (joined (codeOf lengthPrefixed nalSizeLen) nals)
      else AnnexBConverter.lengthPrefixedChunksIter ⟨nalSizeLen, []⟩
          (joined (codeOf lengthPrefixed nalSizeLen) nals)) =
      if lengthPrefixed then
        .lengthPrefixed (joined (codeOf lengthPrefixed nalSizeLen) nals) nalSizeLen 0
      else .annexB (joined (codeOf lengthPrefixed nalSizeLen) nals) 0 false := by
    cases lengthPrefixed <;> rfl
  unfold AnnexBConverter.convert
  rw [if_neg (not_not.mpr ⟨hlen.1, Nat.lt_succ_of_le hlen.2⟩)]
  dsimp only
  rw [hiter, hscan, ← rebuild_eq_scratch hlen]
  rfl

theorem convert_fits (hlen : 1 ≤ nalSizeLen ∧ nalSizeLen ≤ 4) {nals : List (List UInt8)}
    (hnals : Separable lengthPrefixed nalSizeLen nals)
    (hfits : ∀ nal ∈ nals, Fits (!lengthPrefixed) nalSizeLen nal.length) :
    AnnexBConverter.convert ⟨nalSizeLen, []⟩ (joined (codeOf lengthPrefixed nalSizeLen) nals)
        (!lengthPrefixed) =
      pure (joined (codeOf (!lengthPrefixed) nalSizeLen) nals,
        ⟨nalSizeLen, unitsAt (widthOf (!lengthPrefixed) nalSizeLen) 0 nals⟩) := by
  have hwidth := length_codeOf lengthPrefixed nalSizeLen
  have hpayloads : payloads (joined (codeOf lengthPrefixed nalSizeLen) nals)
      (unitsAt (widthOf lengthPrefixed nalSizeLen) 0 nals) = nals := payloads_joined hwidth [] nals
  have hinside : ∀ chunk ∈ unitsAt (widthOf lengthPrefixed nalSizeLen) 0 nals,
      Inside (joined (codeOf lengthPrefixed nalSizeLen) nals) chunk :=
    inside_unitsAt hwidth [] nals
  rw [convert_scanned hlen hnals, scratch_fits hlen hinside (forall_dataSize.mpr hfits), pure_bind,
    hpayloads]

theorem convert_refused (hlen : 1 ≤ nalSizeLen ∧ nalSizeLen ≤ 4) {nals : List (List UInt8)}
    (hnals : Separable lengthPrefixed nalSizeLen nals)
    (hnot : ¬ ∀ nal ∈ nals, Fits (!lengthPrefixed) nalSizeLen nal.length) :
    AnnexBConverter.convert ⟨nalSizeLen, []⟩ (joined (codeOf lengthPrefixed nalSizeLen) nals)
        (!lengthPrefixed) = throw .param := by
  have hinside : ∀ chunk ∈ unitsAt (widthOf lengthPrefixed nalSizeLen) 0 nals,
      Inside (joined (codeOf lengthPrefixed nalSizeLen) nals) chunk :=
    inside_unitsAt (length_codeOf lengthPrefixed nalSizeLen) [] nals
  rw [← @forall_dataSize (widthOf lengthPrefixed nalSizeLen) 0] at hnot
  have hsome : ∃ chunk ∈ unitsAt (widthOf lengthPrefixed nalSizeLen) 0 nals,
      ¬ Fits (!lengthPrefixed) nalSizeLen chunk.dataSize := by
    by_contra hnone
    refine hnot fun chunk hmem => ?_
    by_contra hfits
    exact hnone ⟨chunk, hmem, hfits⟩
  rw [convert_scanned hlen hnals, scratch_refused hlen hinside hsome]
  rfl

end Scanned

/-! ## There and back -/

section RoundTrip

variable {nalSizeLen : Nat}

/-- **There and back**, where the units can be told apart behind both kinds of codes. -/
theorem there_and_back (hlen : 1 ≤ nalSizeLen ∧ nalSizeLen ≤ 4) {lengthPrefixed : Bool}
    {nals : List (List UInt8)} (hnals : Separable lengthPrefixed nalSizeLen nals)
    (hback : Separable (!lengthPrefixed) nalSizeLen nals) :
    ∃ out cache cache',
      AnnexBConverter.convert ⟨nalSizeLen, []⟩ (joined (codeOf lengthPrefixed nalSizeLen) nals)
          (!lengthPrefixed) = pure (out, ⟨nalSizeLen, cache⟩) ∧
        AnnexBConverter.convert ⟨nalSizeLen, []⟩ out lengthPrefixed =
          pure (joined (codeOf lengthPrefixed nalSizeLen) nals, ⟨nalSizeLen, cache'⟩) := by
  have hfits {lengthPrefixed : Bool} (hnals : Separable lengthPrefixed nalSizeLen nals) :
      ∀ nal ∈ nals, Fits lengthPrefixed nalSizeLen nal.length := by
    intro nal hmem hlengths
    have hnal := hnals nal hmem
    rw [if_pos hlengths] at hnal
    exact .inr hnal
  have hreturn := convert_fits hlen hback
  rw [Bool.not_not] at hreturn
  exact ⟨_, _, _, convert_fits hlen hnals (hfits hback), hreturn (hfits hnals)⟩

/-- **What a buffer promises**: what the scan for start codes accepts comes back from the lengths if
they fit, and is refused if not; what the scan for lengths accepts comes back from the start codes
if none is inside a unit; and both paths of a conversion agree. -/
structure Converts (nalSizeLen : Nat) (src : List UInt8) : Prop where
  fromAnnexB : ∀ chunks, AnnexBConverter.scanOnly src nalSizeLen false = pure chunks →
    (∀ chunk ∈ chunks, chunk.dataSize < 256 ^ nalSizeLen) → ∃ out cache cache',
      AnnexBConverter.convert ⟨nalSizeLen, []⟩ src true = pure (out, ⟨nalSizeLen, cache⟩) ∧
        AnnexBConverter.convert ⟨nalSizeLen, []⟩ out false = pure (src, ⟨nalSizeLen, cache'⟩)
  fromLengthPrefixed : ∀ chunks, AnnexBConverter.scanOnly src nalSizeLen true = pure chunks →
    (∀ nal ∈ payloads src chunks, StartCodeFree nal) → ∃ out cache cache',
      AnnexBConverter.convert ⟨nalSizeLen, []⟩ src false = pure (out, ⟨nalSizeLen, cache⟩) ∧
        AnnexBConverter.convert ⟨nalSizeLen, []⟩ out true = pure (src, ⟨nalSizeLen, cache'⟩)
  refused : ∀ chunks, AnnexBConverter.scanOnly src nalSizeLen false = pure chunks →
    (∃ chunk ∈ chunks, 256 ^ nalSizeLen ≤ chunk.dataSize) →
      ∃ e, AnnexBConverter.convert ⟨nalSizeLen, []⟩ src true = throw e
  paths : ∀ lengthPrefixed chunks,
    AnnexBConverter.scanOnly src nalSizeLen lengthPrefixed = pure chunks →
      AnnexBBuilder.rebuildFromChunks src chunks (!lengthPrefixed) nalSizeLen =
        rebuildFromScratch src chunks (!lengthPrefixed) nalSizeLen

/-- A length of four bytes is never refused. -/
theorem convert_four {nals : List (List UInt8)} (hnals : Separable false 4 nals) :
    AnnexBConverter.convert ⟨4, []⟩ (joined started nals) true =
      pure (joined (lengthOf 4) nals, ⟨4, unitsAt 4 0 nals⟩) :=
  convert_fits ⟨by decide, by decide⟩ hnals fun _ _ _ => .inl rfl

/-- **Buffers convert back and forth**, except that a unit of `2 ^ 32` bytes or more is not refused
where lengths are of four bytes. -/
theorem converts_iff (hlen : 1 ≤ nalSizeLen ∧ nalSizeLen ≤ 4) (src : List UInt8) :
    Converts nalSizeLen src ↔ (nalSizeLen = 4 → ∀ chunks,
      AnnexBConverter.scanOnly src nalSizeLen false = pure chunks →
        ∀ chunk ∈ chunks, chunk.dataSize < 2 ^ 32) := by
  constructor
  · rintro h rfl chunks hscan chunk hmem
    by_contra hlarge
    obtain ⟨e, hrefused⟩ := h.refused chunks hscan ⟨chunk, hmem, Nat.le_of_not_lt hlarge⟩
    obtain ⟨nals, hnals, rfl, rfl⟩ := (scanOnly_iff hlen).mp hscan
    have hconvert := convert_four hnals
    rw [show joined (codeOf false 4) nals = joined started nals from rfl, hconvert] at hrefused
    cases hrefused
  · intro hcondition
    refine ⟨fun chunks hscan hsizes => ?_, fun chunks hscan hfree => ?_,
      fun chunks hscan hlarge => ?_, fun lengthPrefixed chunks hscan => ?_⟩
    · obtain ⟨nals, hnals, rfl, rfl⟩ := (scanOnly_iff hlen).mp hscan
      have hshort : ∀ nal ∈ nals, nal.length < 256 ^ nalSizeLen :=
        (forall_dataSize (P := fun size => size < 256 ^ nalSizeLen)).mp hsizes
      exact there_and_back hlen hnals hshort
    · obtain ⟨nals, hnals, rfl, rfl⟩ := (scanOnly_iff hlen).mp hscan
      have hpayloads : payloads (joined (codeOf true nalSizeLen) nals)
          (unitsAt (widthOf true nalSizeLen) 0 nals) = nals :=
        payloads_joined (length_codeOf true nalSizeLen) [] nals
      rw [hpayloads] at hfree
      exact there_and_back hlen hnals hfree
    · obtain ⟨nals, hnals, rfl, rfl⟩ := (scanOnly_iff hlen).mp hscan
      refine ⟨.param, convert_refused hlen hnals fun hfits => ?_⟩
      obtain ⟨chunk, hmem, hsize⟩ := hlarge
      have hfit : Fits true nalSizeLen chunk.dataSize :=
        (forall_dataSize (P := Fits true nalSizeLen)).mpr hfits chunk hmem
      rcases hfit rfl with hfour | hlt
      · have hsmall := hcondition hfour _ hscan chunk hmem
        rw [hfour] at hsize
        exact absurd hsmall (Nat.not_lt.mpr hsize)
      · exact absurd hlt (Nat.not_lt.mpr hsize)
    · obtain ⟨nals, hnals, rfl, rfl⟩ := (scanOnly_iff hlen).mp hscan
      exact rebuild_eq_scratch hlen nals

end RoundTrip

theorem converts_iff_two :
    Converts 2 [0, 0, 0, 1, 0x67, 0x42, 0, 0, 0, 0, 1, 0x68] ↔ (2 = 4 → ∀ chunks,
      AnnexBConverter.scanOnly [0, 0, 0, 1, 0x67, 0x42, 0, 0, 0, 0, 1, 0x68] 2 false = pure chunks →
        ∀ chunk ∈ chunks, chunk.dataSize < 2 ^ 32) :=
  converts_iff (by decide) _

/-- One unit whose length is cut off. -/
def hugeUnit : List UInt8 := List.replicate 4294967296 0x41

/-- **A unit of `2 ^ 32` bytes is not refused**: its length is written as zero. -/
theorem huge_unit_not_refused :
    (∃ chunks, AnnexBConverter.scanOnly (startCode ++ hugeUnit) 4 false = pure chunks ∧
      ∃ chunk ∈ chunks, 256 ^ 4 ≤ chunk.dataSize) ∧
    AnnexBConverter.convert ⟨4, []⟩ (startCode ++ hugeUnit) true =
      pure ([0, 0, 0, 0] ++ hugeUnit, ⟨4, [⟨0, 4, 4294967296⟩]⟩) := by
  have hlength : hugeUnit.length = 4294967296 := List.length_replicate
  have hfree : StartCodeFree hugeUnit := by
    intro hinfix
    have hzero : (0 : UInt8) ∈ hugeUnit := hinfix.subset List.mem_cons_self
    have hvalue := List.eq_of_mem_replicate hzero
    revert hvalue
    decide
  have hnals : Separable false 4 [hugeUnit] := by
    intro nal hmem
    rw [List.mem_singleton.mp hmem]
    exact hfree
  have hsrc : startCode ++ hugeUnit = joined started [hugeUnit] := by
    rw [joined_cons]
    exact (List.append_nil _).symm
  have hchunks : unitsAt 4 0 [hugeUnit] = [⟨0, 4, 4294967296⟩] := by
    rw [unitsAt, unitsAt, hlength]
  have hout : joined (lengthOf 4) [hugeUnit] = [0, 0, 0, 0] ++ hugeUnit := by
    have hcode : BigEndian.toBytes 4 4294967296 = [0, 0, 0, 0] := by decide
    rw [joined_cons, lengthOf, hlength, hcode]
    exact List.append_nil _
  refine ⟨⟨_, (scanOnly_iff ⟨by decide, by decide⟩).mpr ⟨[hugeUnit], hnals, hsrc, rfl⟩, ?_⟩, ?_⟩
  · refine ⟨⟨0, 4, 4294967296⟩, ?_, by decide⟩
    show _ ∈ unitsAt 4 0 [hugeUnit]
    rw [hchunks]
    exact List.mem_singleton.mpr rfl
  · rw [hsrc, convert_four hnals, hchunks, hout]

end Catplay.Analysis.Video
