import Catplay.Model.Video.AnnexB

/-!
# The units of a buffer

A buffer that a scan accepts is a list of NAL units, each with a code in front: a start code, which
then occurs in no unit (`scan_annexB`), or the length (`scan_lengthPrefixed`). The chunks that the
scan finds are where the units stand, and any units that stand so are found (`collect_annexB`,
`collect_lengthPrefixed`).
-/

set_option autoImplicit false

namespace Catplay.Analysis.Video

open Catplay.Library Catplay.Model.Video

/-! ## Results that may panic -/

section Nal

variable {α β : Type}

theorem bind_eq_pure {x : Nal α} {f : α → Nal β} {b : β} :
    x >>= f = pure b ↔ ∃ a, x = pure a ∧ f a = pure b := by
  constructor
  · intro h
    rcases x with _ | ⟨e | a⟩
    · cases h
    · cases h
    · exact ⟨a, rfl, h⟩
  · rintro ⟨a, rfl, h⟩
    exact h

theorem pure_inj {a b : α} (h : (pure a : Nal α) = pure b) : a = b :=
  Except.ok.inj (Option.some.inj h)

end Nal

/-! ## Units behind their codes -/

/-- Each unit with the code in front that it has. -/
def joined (code : List UInt8 → List UInt8) (nals : List (List UInt8)) : List UInt8 :=
  nals.flatMap fun nal => code nal ++ nal

/-- The payloads of the chunks. -/
def payloads (src : List UInt8) (chunks : List NalChunk) : List (List UInt8) :=
  chunks.map fun chunk => (src.drop (chunk.prefixStart + chunk.prefixLen)).take chunk.dataSize

/-- Where the units stand, behind codes of `width` bytes. -/
def unitsAt (width : Nat) : Nat → List (List UInt8) → List NalChunk
  | _, [] => []
  | position, nal :: nals =>
    ⟨position, width, nal.length⟩ :: unitsAt width (position + width + nal.length) nals

/-- The length of a unit in `width` bytes. -/
def lengthOf (width : Nat) (nal : List UInt8) : List UInt8 := BigEndian.toBytes width nal.length

/-- A start code in front of every unit. -/
def started (_ : List UInt8) : List UInt8 := startCode

theorem length_lengthOf (width : Nat) (nal : List UInt8) : (lengthOf width nal).length = width :=
  BigEndian.length_toBytes width nal.length

theorem length_started (nal : List UInt8) : (started nal).length = 4 := rfl

theorem joined_cons (code : List UInt8 → List UInt8) (nal : List UInt8) (nals : List (List UInt8)) :
    joined code (nal :: nals) = code nal ++ nal ++ joined code nals := List.flatMap_cons

/-- What is in front of the first of the units, and of the others. -/
theorem append_joined_cons (code : List UInt8 → List UInt8) (front nal : List UInt8)
    (nals : List (List UInt8)) :
    front ++ joined code (nal :: nals) = front ++ (code nal ++ nal) ++ joined code nals := by
  rw [joined_cons, List.append_assoc front]

section Width

variable {code : List UInt8 → List UInt8} {width : Nat}

theorem length_front (hcode : ∀ nal, (code nal).length = width) (front nal : List UInt8) :
    (front ++ (code nal ++ nal)).length = front.length + width + nal.length := by
  rw [List.length_append, List.length_append, hcode, Nat.add_assoc]

/-- **The units are the payloads**, behind whatever codes of their width. -/
theorem payloads_joined (hcode : ∀ nal, (code nal).length = width) (front : List UInt8)
    (nals : List (List UInt8)) :
    payloads (front ++ joined code nals) (unitsAt width front.length nals) = nals := by
  induction nals generalizing front with
  | nil => rfl
  | cons nal nals ih =>
    have hrest := ih (front ++ (code nal ++ nal))
    rw [length_front hcode] at hrest
    have hcut : (front ++ code nal).length = front.length + width := by
      rw [List.length_append, hcode]
    have hnal : ((front ++ (code nal ++ nal) ++ joined code nals).drop (front.length + width)).take
        nal.length = nal := by
      rw [← hcut, List.append_assoc, List.append_assoc, ← List.append_assoc front,
        List.drop_left, List.take_left]
    rw [append_joined_cons, unitsAt]
    exact congrArg₂ List.cons hnal hrest

end Width

/-! ## The scan for lengths -/

/-- **A scan of lengths** finds the units of the whole buffer. -/
theorem scan_lengthPrefixed {src : List UInt8} {width fuel offset : Nat} {chunks : List NalChunk}
    (hoffset : offset ≤ src.length)
    (h : AnnexBIter.collectFuel fuel (.lengthPrefixed src width offset) = some (.ok chunks)) :
    ∃ nals, src.drop offset = joined (lengthOf width) nals ∧ chunks = unitsAt width offset nals ∧
      ∀ nal ∈ nals, nal.length < 256 ^ width := by
  induction fuel generalizing offset chunks with
  | zero => cases h
  | succ fuel ih =>
    unfold AnnexBIter.collectFuel AnnexBIter.next at h
    dsimp only at h
    by_cases hend : src.length ≤ offset
    · rw [if_pos hend] at h
      obtain rfl := Except.ok.inj (Option.some.inj h)
      refine ⟨[], List.drop_of_length_le hend, rfl, fun _ hnal => nomatch hnal⟩
    · rw [if_neg hend] at h
      cases hread : readLengthPrefixedNalLen src offset width with
      | error e =>
        rw [hread] at h
        cases h
      | ok result =>
        obtain ⟨nalLen, payloadStart⟩ := result
        rw [hread] at h
        dsimp only at h
        unfold readLengthPrefixedNalLen at hread
        dsimp only at hread
        split at hread
        · cases hread
        · rename_i hprefix
          split at hread
          · cases hread
          · split at hread
            · cases hread
            · rename_i hpayload
              obtain ⟨rfl, rfl⟩ := Prod.mk.inj (Except.ok.inj hread)
              obtain ⟨result, hrest, hresult⟩ := Option.map_eq_some_iff.mp h
              cases result with
              | error e => cases hresult
              | ok rest =>
                obtain rfl := Except.ok.inj hresult
                have hnext : offset + width + BigEndian.ofBytes ((src.drop offset).take width) ≤
                    src.length := Nat.le_of_not_lt hpayload
                obtain ⟨nals, hsrc, rfl, hall⟩ := ih hnext hrest
                have hcode : ((src.drop offset).take width).length = width := by
                  rw [List.length_take, List.length_drop]
                  omega
                have hlt := BigEndian.ofBytes_lt ((src.drop offset).take width)
                have hbytes := BigEndian.toBytes_ofBytes ((src.drop offset).take width)
                rw [hcode] at hlt hbytes
                generalize BigEndian.ofBytes ((src.drop offset).take width) = nalLen at *
                have hnal : ((src.drop (offset + width)).take nalLen).length = nalLen := by
                  rw [List.length_take, List.length_drop]
                  omega
                refine ⟨(src.drop (offset + width)).take nalLen :: nals, ?_, ?_, ?_⟩
                · have hafter : (src.drop (offset + width)).drop nalLen =
                      joined (lengthOf width) nals := by
                    rw [List.drop_drop, hsrc]
                  rw [joined_cons, lengthOf, hnal, hbytes, ← hafter, List.append_assoc,
                    List.take_append_drop, ← List.drop_drop, List.take_append_drop]
                · rw [unitsAt, hnal]
                · intro nal hmem
                  rcases List.mem_cons.mp hmem with rfl | hin
                  · rw [hnal]
                    exact hlt
                  · exact hall nal hin

/-- The length in front of a unit is read. -/
theorem read_lengthOf {width : Nat} (hwidth : 1 ≤ width ∧ width ≤ 4) (front rest : List UInt8)
    {nal : List UInt8} (hnal : nal.length < 256 ^ width) :
    readLengthPrefixedNalLen (front ++ (lengthOf width nal ++ nal) ++ rest) front.length width =
      .ok (nal.length, front.length + width) := by
  have hbytes : ((front ++ (lengthOf width nal ++ nal) ++ rest).drop front.length).take width =
      lengthOf width nal := by
    rw [List.append_assoc, List.drop_left, List.append_assoc]
    exact List.take_left' (length_lengthOf width nal)
  have hlength : (front ++ (lengthOf width nal ++ nal) ++ rest).length =
      front.length + width + nal.length + rest.length := by
    rw [List.length_append, length_front (length_lengthOf width)]
  have hofBytes : BigEndian.ofBytes (lengthOf width nal) = nal.length := BigEndian.ofBytes_toBytes hnal
  unfold readLengthPrefixedNalLen
  dsimp only
  rw [hbytes, hofBytes, hlength, if_neg (by omega), if_neg (not_not.mpr hwidth), if_neg (by omega)]

/-- **Units behind their lengths are found.** -/
theorem collect_lengthPrefixed {width : Nat} (hwidth : 1 ≤ width ∧ width ≤ 4) (front : List UInt8)
    {nals : List (List UInt8)} (hnals : ∀ nal ∈ nals, nal.length < 256 ^ width) {fuel : Nat}
    (hfuel : nals.length < fuel) :
    AnnexBIter.collectFuel fuel
        (.lengthPrefixed (front ++ joined (lengthOf width) nals) width front.length) =
      some (.ok (unitsAt width front.length nals)) := by
  induction nals generalizing front fuel with
  | nil =>
    cases fuel with
    | zero => cases hfuel
    | succ fuel =>
      unfold AnnexBIter.collectFuel AnnexBIter.next
      dsimp only
      rw [show joined (lengthOf width) [] = [] from rfl, List.append_nil,
        if_pos (Nat.le_refl _)]
      rfl
  | cons nal nals ih =>
    cases fuel with
    | zero => cases hfuel
    | succ fuel =>
      have hrest := @ih (front ++ (lengthOf width nal ++ nal))
        (fun other hmem => hnals other (List.mem_cons_of_mem _ hmem)) fuel
        (Nat.lt_of_succ_lt_succ hfuel)
      rw [length_front (length_lengthOf width)] at hrest
      have hlength : (front ++ (lengthOf width nal ++ nal) ++ joined (lengthOf width) nals).length =
          front.length + width + nal.length + (joined (lengthOf width) nals).length := by
        rw [List.length_append, length_front (length_lengthOf width)]
      rw [append_joined_cons, unitsAt]
      unfold AnnexBIter.collectFuel AnnexBIter.next
      dsimp only
      rw [if_neg (by rw [hlength]; omega),
        read_lengthOf hwidth front _ (hnals nal List.mem_cons_self)]
      dsimp only
      rw [hrest]
      rfl

/-! ## The scan for start codes -/

/-- No start code inside. -/
def StartCodeFree (nal : List UInt8) : Prop := ¬ startCode <:+: nal

/-- A start code begins at the position. -/
def StartsAt (buf : List UInt8) (position : Nat) : Prop := startCode <+: buf.drop position

theorem startsAt_iff {buf : List UInt8} {position : Nat} :
    StartsAt buf position ↔ (buf.drop position).take 4 = startCode := by
  unfold StartsAt
  rw [List.prefix_iff_eq_take]
  exact eq_comm

theorem StartsAt.inside {buf : List UInt8} {position : Nat} (h : StartsAt buf position) :
    position + 4 ≤ buf.length := by
  have hlength := List.IsPrefix.length_le h
  rw [List.length_drop] at hlength
  have hfour : startCode.length = 4 := rfl
  omega

/-- **The next start code** is the first one from the position on. -/
theorem findNextStartCode_spec {buf : List UInt8} {start : Nat} (hstart : start ≤ buf.length) :
    start ≤ findNextStartCode buf start ∧ findNextStartCode buf start ≤ buf.length ∧
      (∀ p, start ≤ p → p < findNextStartCode buf start → ¬ StartsAt buf p) ∧
      (findNextStartCode buf start = buf.length ∨ StartsAt buf (findNextStartCode buf start)) := by
  unfold findNextStartCode
  split
  · rename_i hshort
    refine ⟨hstart, Nat.le_refl _, fun p hp _ hstarts => ?_, .inl rfl⟩
    have hlength := hstarts.inside
    omega
  · rename_i hroom
    split
    · rename_i oneIdx hfind
      obtain ⟨hone, hrange, hfirst⟩ := List.find?_range'_eq_some.mp hfind
      obtain ⟨i, hi, rfl⟩ := List.mem_range'.mp hrange
      have hat : StartsAt buf (start + 3 + 1 * i - 3) :=
        startsAt_iff.mpr (of_decide_eq_true hone)
      refine ⟨by omega, by omega, fun p hp hlt hstarts => ?_, .inr hat⟩
      have hnot := hfirst (p + 3) (by omega) (by omega)
      rw [Nat.add_sub_cancel, Bool.not_eq_true', decide_eq_false_iff_not] at hnot
      exact hnot (startsAt_iff.mp hstarts)
    · rename_i hfind
      refine ⟨hstart, Nat.le_refl _, fun p hp _ hstarts => ?_, .inl rfl⟩
      have hlength := hstarts.inside
      have hmem : p + 3 ∈ List.range' (start + 3) (buf.length - (start + 3)) :=
        List.mem_range'.mpr ⟨p - start, by omega, by omega⟩
      have hnot := List.find?_eq_none.mp hfind (p + 3) hmem
      rw [Nat.add_sub_cancel, decide_eq_true_eq] at hnot
      exact hnot (startsAt_iff.mp hstarts)

/-- Nothing else is the next start code. -/
theorem findNextStartCode_eq {buf : List UInt8} {start stop : Nat} (hstart : start ≤ stop)
    (hstop : stop ≤ buf.length) (hbefore : ∀ p, start ≤ p → p < stop → ¬ StartsAt buf p)
    (hend : stop = buf.length ∨ StartsAt buf stop) : findNextStartCode buf start = stop := by
  obtain ⟨hlow, hhigh, hnone, hfound⟩ :=
    findNextStartCode_spec (Nat.le_trans hstart hstop)
  by_contra hne
  rcases Nat.lt_or_gt_of_ne hne with hlt | hgt
  · rcases hfound with hlength | hstarts
    · omega
    · exact hbefore _ hlow hlt hstarts
  · rcases hend with hlength | hstarts
    · omega
    · exact hnone stop hstart hgt hstarts

/-- Where no start code begins, none is inside. -/
theorem free_of_not_startsAt {src : List UInt8} {start stop : Nat}
    (h : ∀ p, start ≤ p → p < stop → ¬ StartsAt src p) :
    StartCodeFree ((src.drop start).take (stop - start)) := by
  rintro ⟨before, behind, hcut⟩
  have hlength := congrArg List.length hcut
  rw [List.length_append, List.length_append, List.length_take] at hlength
  have hfour : startCode.length = 4 := rfl
  have hdrop : src.drop start =
      before ++ (startCode ++ (behind ++ (src.drop start).drop (stop - start))) := by
    conv_lhs => rw [← List.take_append_drop (stop - start) (src.drop start), ← hcut]
    simp only [List.append_assoc]
  apply h (start + before.length) (Nat.le_add_right _ _) (by omega)
  unfold StartsAt
  rw [← List.drop_drop, hdrop, List.drop_left]
  exact List.prefix_append _ _

/-- **A unit without a start code ends where the next code begins**: no other start code overlaps
its end. -/
theorem not_startsAt_of_free {front nal rest : List UInt8} (hfree : StartCodeFree nal)
    (hrest : rest = [] ∨ startCode <+: rest) {p : Nat} (hlow : front.length ≤ p)
    (hhigh : p < front.length + nal.length) : ¬ StartsAt (front ++ (nal ++ rest)) p := by
  intro hstarts
  set before := nal.take (p - front.length) with hbefore
  set behind := nal.drop (p - front.length) with hbehind
  have hnal : nal = before ++ behind := (List.take_append_drop _ nal).symm
  have hlength : behind.length = nal.length - (p - front.length) := by
    rw [hbehind, List.length_drop]
  have hdrop : (front ++ (nal ++ rest)).drop p = behind ++ rest := by
    rw [show p = front.length + (p - front.length) by omega, ← List.drop_drop, List.drop_left,
      List.drop_append_of_le_length (by omega), ← hbehind]
  unfold StartsAt at hstarts
  rw [hdrop] at hstarts
  by_cases hlong : 4 ≤ behind.length
  · have hprefix : startCode <+: behind :=
      List.prefix_of_prefix_length_le hstarts (List.prefix_append behind rest) hlong
    apply hfree
    rw [hnal]
    exact hprefix.isInfix.trans (List.suffix_append before behind).isInfix
  · rcases hrest with rfl | ⟨more, rfl⟩
    · have hshort := hstarts.length_le
      rw [List.append_nil] at hshort
      exact hlong hshort
    · -- the one of the start code would stand among the zeros of the next one
      match behind, hlength, hlong, hstarts with
      | [], hlength, _, _ =>
        rw [List.length_nil] at hlength
        omega
      | [x], _, _, hstarts => simp [startCode] at hstarts
      | [x, y], _, _, hstarts => simp [startCode] at hstarts
      | [x, y, z], _, _, hstarts => simp [startCode] at hstarts
      | _ :: _ :: _ :: _ :: _, _, hlong, _ => simp at hlong

theorem joined_started_cases (nals : List (List UInt8)) :
    joined started nals = [] ∨ startCode <+: joined started nals := by
  cases nals with
  | nil => exact .inl rfl
  | cons nal nals =>
    rw [joined_cons, List.append_assoc]
    exact .inr (List.prefix_append startCode _)

/-- **Units without start codes are found** behind their start codes. -/
theorem collect_annexB (front : List UInt8) {nals : List (List UInt8)}
    (hnals : ∀ nal ∈ nals, StartCodeFree nal) {fuel : Nat} (hfuel : nals.length < fuel) :
    AnnexBIter.collectFuel fuel (.annexB (front ++ joined started nals) front.length false) =
      some (.ok (unitsAt 4 front.length nals)) := by
  induction nals generalizing front fuel with
  | nil =>
    cases fuel with
    | zero => cases hfuel
    | succ fuel =>
      unfold AnnexBIter.collectFuel AnnexBIter.next
      dsimp only
      rw [show joined started [] = [] from rfl, List.append_nil, if_neg Bool.false_ne_true,
        if_pos (by omega), if_pos rfl]
      rfl
  | cons nal nals ih =>
    cases fuel with
    | zero => cases hfuel
    | succ fuel =>
      have hlength : (front ++ (started nal ++ nal) ++ joined started nals).length =
          front.length + 4 + nal.length + (joined started nals).length := by
        rw [List.length_append, length_front length_started]
      have hcut : (front ++ startCode).length = front.length + 4 := by
        rw [List.length_append]
        rfl
      have hbytes : front ++ (started nal ++ nal) ++ joined started nals =
          front ++ startCode ++ (nal ++ joined started nals) := by
        simp only [started, List.append_assoc]
      have hnext : findNextStartCode (front ++ (started nal ++ nal) ++ joined started nals)
          (front.length + 4) = front.length + 4 + nal.length := by
        apply findNextStartCode_eq (Nat.le_add_right _ _)
        · rw [hlength]
          exact Nat.le_add_right _ _
        · intro p hlow hhigh
          rw [← hcut] at hlow hhigh
          rw [hbytes]
          exact not_startsAt_of_free (hnals nal List.mem_cons_self) (joined_started_cases nals)
            hlow hhigh
        · rcases joined_started_cases nals with hnil | hprefix
          · left
            rw [hlength, hnil]
            rfl
          · right
            unfold StartsAt
            rw [← length_front length_started, List.drop_left]
            exact hprefix
      have hstarts : startCode <+:
          (front ++ (started nal ++ nal) ++ joined started nals).drop front.length := by
        rw [hbytes, List.append_assoc, List.drop_left]
        exact List.prefix_append _ _
      have hrest : AnnexBIter.collectFuel fuel
          (.annexB (front ++ (started nal ++ nal) ++ joined started nals)
            (front.length + 4 + nal.length)
            (decide (front.length + 4 + nal.length =
              (front ++ (started nal ++ nal) ++ joined started nals).length))) =
          some (.ok (unitsAt 4 (front.length + 4 + nal.length) nals)) := by
        cases nals with
        | nil =>
          obtain ⟨fuel, rfl⟩ : ∃ k, fuel = k + 1 := ⟨fuel - 1, by simp at hfuel; omega⟩
          rw [decide_eq_true (by rw [hlength]; rfl)]
          rfl
        | cons other nals =>
          have hpos : 0 < (joined started (other :: nals)).length := by
            rw [joined_cons, List.length_append, List.length_append, length_started]
            omega
          rw [decide_eq_false (by rw [hlength]; omega), ← length_front length_started]
          exact ih (front ++ (started nal ++ nal))
            (fun unit hmem => hnals unit (List.mem_cons_of_mem _ hmem))
            (Nat.lt_of_succ_lt_succ hfuel)
      rw [append_joined_cons, unitsAt]
      unfold AnnexBIter.collectFuel AnnexBIter.next
      dsimp only
      rw [if_neg Bool.false_ne_true, if_neg (by rw [hlength]; omega), if_neg (not_not.mpr hstarts),
        hnext, if_neg (by omega)]
      dsimp only
      rw [hrest, Nat.add_sub_cancel_left]
      rfl

/-- **A scan for start codes** finds units without start codes inside. -/
theorem scan_annexB {src : List UInt8} {fuel pos : Nat} {done : Bool} {chunks : List NalChunk}
    (hpos : pos ≤ src.length) (hdone : done = true → pos = src.length)
    (h : AnnexBIter.collectFuel fuel (.annexB src pos done) = some (.ok chunks)) :
    ∃ nals, src.drop pos = joined started nals ∧ chunks = unitsAt 4 pos nals ∧
      ∀ nal ∈ nals, StartCodeFree nal := by
  have hnone {chunks : List NalChunk} (hend : pos = src.length) (hchunks : [] = chunks) :
      ∃ nals, src.drop pos = joined started nals ∧ chunks = unitsAt 4 pos nals ∧
        ∀ nal ∈ nals, StartCodeFree nal :=
    ⟨[], List.drop_of_length_le (Nat.le_of_eq hend.symm), hchunks.symm, fun _ hnal => nomatch hnal⟩
  induction fuel generalizing pos done chunks with
  | zero => cases h
  | succ fuel ih =>
    unfold AnnexBIter.collectFuel AnnexBIter.next at h
    dsimp only at h
    by_cases hd : done = true
    · rw [if_pos hd] at h
      exact hnone (hdone hd) (Except.ok.inj (Option.some.inj h))
    · rw [if_neg hd] at h
      by_cases hshort : src.length < pos + 4
      · rw [if_pos hshort] at h
        by_cases hend : pos = src.length
        · rw [if_pos hend] at h
          exact hnone hend (Except.ok.inj (Option.some.inj h))
        · rw [if_neg hend] at h
          cases h
      · rw [if_neg hshort] at h
        by_cases hstarts : startCode <+: src.drop pos
        · rw [if_neg (not_not.mpr hstarts)] at h
          obtain ⟨hlow, hhigh, hbefore, hfound⟩ :=
            @findNextStartCode_spec src (pos + 4) (Nat.le_of_not_lt hshort)
          generalize findNextStartCode src (pos + 4) = next at h hlow hhigh hbefore hfound
          rw [if_neg (Nat.not_lt.mpr hlow)] at h
          dsimp only at h
          obtain ⟨result, hrest, hresult⟩ := Option.map_eq_some_iff.mp h
          cases result with
          | error e => cases hresult
          | ok rest =>
            obtain rfl := Except.ok.inj hresult
            obtain ⟨nals, hsrc, rfl, hall⟩ := ih hhigh (fun hd => of_decide_eq_true hd) hrest
              (fun hend hchunks => ⟨[], List.drop_of_length_le (Nat.le_of_eq hend.symm),
                hchunks.symm, fun _ hnal => nomatch hnal⟩)
            have hnal : ((src.drop (pos + 4)).take (next - (pos + 4))).length =
                next - (pos + 4) := by
              rw [List.length_take, List.length_drop]
              omega
            refine ⟨(src.drop (pos + 4)).take (next - (pos + 4)) :: nals, ?_, ?_, ?_⟩
            · obtain ⟨behind, hbehind⟩ := hstarts
              have hafter : src.drop (pos + 4) = behind := by
                rw [← List.drop_drop, ← hbehind]
                rfl
              have hnext : (src.drop (pos + 4)).drop (next - (pos + 4)) = joined started nals := by
                rw [List.drop_drop, show pos + 4 + (next - (pos + 4)) = next by omega, hsrc]
              rw [joined_cons, ← hnext, List.append_assoc, List.take_append_drop, hafter]
              exact hbehind.symm
            · rw [unitsAt, hnal, show pos + 4 + (next - (pos + 4)) = next by omega]
            · intro nal hmem
              rcases List.mem_cons.mp hmem with rfl | hin
              · exact free_of_not_startsAt hbefore
              · exact hall nal hin
        · rw [if_pos hstarts] at h
          cases h

end Catplay.Analysis.Video
