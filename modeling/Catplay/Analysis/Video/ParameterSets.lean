import Catplay.Analysis.Video.Units
import Catplay.Model.Video.Configuration
import Mathlib.Data.List.Chain

/-!
# The parameter sets of a configuration

A configuration holds its units in one buffer, each behind a start code of three or of four bytes.
The writer for H.264 finds the units (`avccParameterSets_bytes`). The one for HEVC sees the start
codes of four bytes only: a unit behind a shorter one stays at the end of the unit in front of it
(`hvccParameterSets_bytes`).
-/

set_option autoImplicit false

namespace Catplay.Analysis.Video

open Catplay.Library Catplay.Model.Video

/-! ## Units behind start codes of either size -/

/-- A unit, and whether the start code in front has four bytes. -/
structure Piece where
  wide : Bool
  nal : List UInt8
  deriving DecidableEq, Repr

def Piece.code (piece : Piece) : List UInt8 := if piece.wide then startCode else shortStartCode

/-- The buffer of the units. -/
def bytesOf (pieces : List Piece) : List UInt8 :=
  pieces.flatMap fun piece => piece.code ++ piece.nal

/-- No start code inside, of either size. -/
def Embedless (nal : List UInt8) : Prop := ¬ shortStartCode <:+: nal

/-- A zero at the end of a unit would make a short start code behind it a long one. -/
def Separate (piece next : Piece) : Prop := next.wide = true ∨ piece.nal.getLast? ≠ some 0

theorem bytesOf_cons (piece : Piece) (pieces : List Piece) :
    bytesOf (piece :: pieces) = piece.code ++ (piece.nal ++ bytesOf pieces) := by
  unfold bytesOf
  rw [List.flatMap_cons, List.append_assoc]

theorem length_le_bytesOf (pieces : List Piece) : pieces.length ≤ (bytesOf pieces).length := by
  induction pieces with
  | nil => exact Nat.le_refl 0
  | cons piece pieces ih =>
    have hcode : 1 ≤ piece.code.length := by
      unfold Piece.code
      split <;> decide
    rw [bytesOf_cons, List.length_append, List.length_append, List.length_cons]
    omega

variable {nal data : List UInt8} {pieces : List Piece} {p fuel : Nat}

theorem Embedless.startCodeFree (h : Embedless nal) : StartCodeFree nal := by
  intro hinside
  apply h
  have hshort : shortStartCode <:+: startCode := by decide
  exact hshort.trans hinside

theorem isChain_of_wide (h : ∀ piece ∈ pieces, piece.wide = true) :
    pieces.IsChain Separate := by
  induction pieces with
  | nil => exact List.isChain_nil
  | cons piece pieces ih =>
    rw [List.isChain_cons]
    refine ⟨fun next hnext => .inl (h next ?_), ih fun other hmem => h other ?_⟩
    · exact List.mem_cons_of_mem _ (List.mem_of_mem_head? hnext)
    · exact List.mem_cons_of_mem _ hmem

/-! ## Where start codes begin -/

/-- What may stand behind a unit without becoming part of it. -/
def Follows (nal rest : List UInt8) : Prop :=
  rest = [] ∨ startCode <+: rest ∨ (shortStartCode <+: rest ∧ nal.getLast? ≠ some 0)

/-- **No start code begins inside a unit**, nor at its end. -/
theorem Follows.not_prefix {rest : List UInt8} (h : Follows nal rest) (hnal : Embedless nal)
    (hp : p < nal.length) :
    ¬ startCode <+: (nal ++ rest).drop p ∧ ¬ shortStartCode <+: (nal ++ rest).drop p := by
  set before := nal.take p with hbefore
  set behind := nal.drop p with hbehind
  have hsplit : nal = before ++ behind := (List.take_append_drop p nal).symm
  have hlength : behind.length = nal.length - p := by
    rw [hbehind, List.length_drop]
  have hlast : nal.getLast? = behind.getLast? := by
    rw [hbehind, List.getLast?_drop, if_neg (Nat.not_le.mpr hp)]
  have hdrop : (nal ++ rest).drop p = behind ++ rest := by
    rw [List.drop_append_of_le_length (Nat.le_of_lt hp)]
  have hinside : ¬ shortStartCode <:+: behind := by
    intro hshort
    apply hnal
    rw [hsplit]
    exact hshort.trans (List.suffix_append before behind).isInfix
  unfold Follows at h
  rw [hlast] at h
  rw [hdrop]
  clear_value behind
  match behind, hlength, hinside, h with
  | [], hlength, _, _ =>
    rw [List.length_nil] at hlength
    omega
  | [x], _, _, h =>
    rcases h with rfl | ⟨more, rfl⟩ | ⟨⟨more, rfl⟩, hzero⟩
    · simp [startCode, shortStartCode]
    · simp [startCode, shortStartCode]
    · have hx : x ≠ 0 := by simpa using hzero
      simp [startCode, shortStartCode, hx.symm]
  | [x, y], _, _, h =>
    rcases h with rfl | ⟨more, rfl⟩ | ⟨⟨more, rfl⟩, -⟩ <;> simp [startCode, shortStartCode]
  | [x, y, z], _, hinside, h =>
    have hshort : ¬ ([0, 0, 1] : List UInt8) = [x, y, z] := fun heq =>
      hinside (heq ▸ List.infix_rfl)
    have hfour : ¬ startCode <+: [x, y, z] ++ rest := by
      rcases h with rfl | ⟨more, rfl⟩ | ⟨⟨more, rfl⟩, -⟩ <;> simp [startCode, shortStartCode]
    refine ⟨hfour, fun hprefix => hshort ?_⟩
    obtain ⟨more, hmore⟩ := hprefix
    exact List.append_inj_left hmore rfl
  | x :: y :: z :: w :: behind, _, hinside, _ =>
    have hfour : ∀ code : List UInt8, code.length ≤ 4 →
        code <+: (x :: y :: z :: w :: behind) ++ rest → code <+: x :: y :: z :: w :: behind :=
      fun code hcode hprefix => List.prefix_of_prefix_length_le hprefix (List.prefix_append _ _)
        (Nat.le_trans hcode (by simp))
    have hshort : shortStartCode <:+: startCode := by decide
    exact ⟨fun hprefix => hinside (hshort.trans (hfour _ (by decide) hprefix).isInfix),
      fun hprefix => hinside (hfour _ (by decide) hprefix).isInfix⟩

theorem separate_follows {piece : Piece}
    (h : (piece :: pieces).IsChain Separate) : Follows piece.nal (bytesOf pieces) := by
  cases pieces with
  | nil => exact .inl rfl
  | cons next pieces =>
    rw [bytesOf_cons]
    cases hwide : next.wide with
    | true =>
      have hcode : next.code = startCode := by simp [Piece.code, hwide]
      exact .inr (.inl (hcode ▸ List.prefix_append _ _))
    | false =>
      have hcode : next.code = shortStartCode := by simp [Piece.code, hwide]
      have hzero : piece.nal.getLast? ≠ some 0 := by
        rcases (List.isChain_cons_cons.mp h).1 with hnext | hzero
        · rw [hwide] at hnext
          cases hnext
        · exact hzero
      exact .inr (.inr ⟨hcode ▸ List.prefix_append _ _, hzero⟩)

theorem embedless_nil : Embedless [] := fun h => absurd h.length_le (by decide)

theorem follows_nil (pieces : List Piece) : Follows [] (bytesOf pieces) := by
  cases pieces with
  | nil => exact .inl rfl
  | cons piece pieces =>
    rw [bytesOf_cons]
    unfold Piece.code
    split
    · exact .inr (.inl (List.prefix_append _ _))
    · exact .inr (.inr ⟨List.prefix_append _ _, by simp⟩)

/-! ## The scan for H.264 -/

theorem startCodeAt_eq_none_iff :
    startCodeAt data p = none ↔
      ¬ startCode <+: data.drop p ∧ ¬ shortStartCode <+: data.drop p := by
  unfold startCodeAt
  split
  · rename_i hlong
    simp [hlong]
  · rename_i hlong
    split
    · rename_i hshort
      simp [hshort]
    · rename_i hshort
      simp [hlong, hshort]

theorem startCodeAt_inside (h : (startCodeAt data p).isSome) :
    p + 3 ≤ data.length := by
  by_contra hend
  have hnone : startCodeAt data p = none := by
    rw [startCodeAt_eq_none_iff]
    constructor <;> intro hprefix
    · have hlength := hprefix.length_le
      rw [List.length_drop] at hlength
      have hfour : startCode.length = 4 := rfl
      omega
    · have hlength := hprefix.length_le
      rw [List.length_drop] at hlength
      have hthree : shortStartCode.length = 3 := rfl
      omega
  rw [hnone] at h
  cases h

/-- **The first start code** from the position on is the one where none begins before. -/
theorem findAnnexBStartCode_eq {start stop : Nat} (hstart : start ≤ stop)
    (hbefore : ∀ p, start ≤ p → p < stop → startCodeAt data p = none)
    (hstop : (startCodeAt data stop).isSome ∨ data.length ≤ stop) :
    findAnnexBStartCode data start = startCodeAt data stop := by
  unfold findAnnexBStartCode
  by_cases hat : (startCodeAt data stop).isSome
  · have hinside := startCodeAt_inside hat
    obtain ⟨found, hfound⟩ := Option.isSome_iff_exists.mp hat
    obtain ⟨more, hmore⟩ : ∃ k, data.length - 2 - start = (stop - start) + (k + 1) :=
      ⟨data.length - 3 - stop, by omega⟩
    have hstop : start + (stop - start) = stop := by omega
    have hnone : (List.range' start (stop - start)).findSome? (startCodeAt data) = none := by
      rw [List.findSome?_eq_none_iff]
      intro p hp
      obtain ⟨hlow, hhigh⟩ := List.mem_range'_1.mp hp
      exact hbefore p hlow (by omega)
    rw [hmore, ← List.range'_append_1, hstop, List.findSome?_append, hnone, Option.none_or,
      List.range'_succ, List.findSome?_cons_of_isSome hat, hfound]
  · have hlength : data.length ≤ stop := hstop.resolve_left hat
    rw [Option.not_isSome_iff_eq_none.mp hat, List.findSome?_eq_none_iff]
    intro p hp
    obtain ⟨hlow, hhigh⟩ := List.mem_range'_1.mp hp
    exact hbefore p hlow (by omega)

theorem startCodeAt_code (front : List UInt8) (piece : Piece) (rest : List UInt8) :
    startCodeAt (front ++ (piece.code ++ rest)) front.length =
      some (front.length, piece.code.length) := by
  unfold startCodeAt
  rw [List.drop_left]
  cases hwide : piece.wide with
  | true => simp [Piece.code, hwide, startCode]
  | false => simp [Piece.code, hwide, startCode, shortStartCode]

theorem findAnnexBStartCode_nal {front nal : List UInt8} {pieces : List Piece}
    (hnal : Embedless nal) (hfollows : Follows nal (bytesOf pieces)) :
    findAnnexBStartCode (front ++ (nal ++ bytesOf pieces)) front.length =
      pieces.head?.map fun piece => (front.length + nal.length, piece.code.length) := by
  have hat : startCodeAt (front ++ (nal ++ bytesOf pieces)) (front.length + nal.length) =
      pieces.head?.map fun piece => (front.length + nal.length, piece.code.length) := by
    cases pieces with
    | nil =>
      rw [List.head?_nil, Option.map_none, ← Option.not_isSome_iff_eq_none]
      intro hat
      have hinside := startCodeAt_inside hat
      rw [show bytesOf [] = [] from rfl, List.append_nil, List.length_append] at hinside
      omega
    | cons piece pieces =>
      have h := startCodeAt_code (front ++ nal) piece (piece.nal ++ bytesOf pieces)
      rw [List.length_append, List.append_assoc] at h
      rw [bytesOf_cons]
      exact h
  rw [← hat]
  apply findAnnexBStartCode_eq (Nat.le_add_right _ _)
  · intro p hlow hhigh
    rw [startCodeAt_eq_none_iff, List.drop_append, List.drop_of_length_le hlow, List.nil_append]
    exact hfollows.not_prefix hnal (by omega)
  · rw [hat]
    cases pieces with
    | nil =>
      right
      simp [bytesOf]
    | cons piece pieces => exact .inl rfl

/-- The units, one after the other, in the lists of their kinds. -/
def pushAll (parameterSet : UInt8 → Option ParameterSet) (sets : ParameterSets)
    (nals : List (List UInt8)) : ParameterSets :=
  nals.foldl (ParameterSets.push parameterSet) sets

/-- The units of a kind, in order. -/
def unitsOf (parameterSet : UInt8 → Option ParameterSet) (kind : ParameterSet)
    (nals : List (List UInt8)) : List (List UInt8) :=
  nals.filter fun nal => nal.head?.bind parameterSet = some kind

section Kinds

variable {parameterSet : UInt8 → Option ParameterSet}

theorem mem_unitsOf {kind : ParameterSet} {nals : List (List UInt8)} {nal : List UInt8} :
    nal ∈ unitsOf parameterSet kind nals ↔
      nal ∈ nals ∧ nal.head?.bind parameterSet = some kind := by
  unfold unitsOf
  rw [List.mem_filter, decide_eq_true_eq]

/-- **The lists** are the units of each kind. -/
theorem pushAll_eq (sets : ParameterSets) (nals : List (List UInt8)) :
    pushAll parameterSet sets nals =
      ⟨sets.vps ++ unitsOf parameterSet .vps nals, sets.sps ++ unitsOf parameterSet .sps nals,
        sets.pps ++ unitsOf parameterSet .pps nals⟩ := by
  induction nals generalizing sets with
  | nil => simp [pushAll, unitsOf]
  | cons nal nals ih =>
    have hstep : pushAll parameterSet sets (nal :: nals) =
        pushAll parameterSet (sets.push parameterSet nal) nals := rfl
    rw [hstep, ih]
    unfold ParameterSets.push unitsOf
    cases hkind : nal.head?.bind parameterSet with
    | none => simp [hkind]
    | some kind => cases kind <;> simp [hkind]

/-- How many of the units have a kind. -/
theorem length_unitsOf_add (nals : List (List UInt8)) :
    (unitsOf parameterSet .vps nals).length + (unitsOf parameterSet .sps nals).length +
        (unitsOf parameterSet .pps nals).length =
      (nals.filter fun nal => (nal.head?.bind parameterSet).isSome).length := by
  induction nals with
  | nil => rfl
  | cons nal nals ih =>
    unfold unitsOf at ih ⊢
    cases hkind : nal.head?.bind parameterSet with
    | none => simpa [hkind] using ih
    | some kind =>
      cases kind <;> simp [hkind] <;> omega

end Kinds

/-- **Every unit is collected** by the writer for H.264. -/
theorem collectAvcc_bytes (front : List UInt8) (hfree : ∀ piece ∈ pieces, Embedless piece.nal)
    (hchain : pieces.IsChain Separate) (hfuel : pieces.length < fuel) (sets : ParameterSets) :
    collectAvcc (front ++ bytesOf pieces) fuel front.length sets =
      pushAll NalType.parameterSet sets (pieces.map (·.nal)) := by
  induction pieces generalizing front fuel sets with
  | nil =>
    obtain ⟨fuel, rfl⟩ : ∃ k, fuel = k + 1 := ⟨fuel - 1, by simp at hfuel; omega⟩
    have hfind := @findAnnexBStartCode_nal front [] [] embedless_nil (follows_nil [])
    rw [List.nil_append] at hfind
    unfold collectAvcc
    rw [hfind]
    rfl
  | cons piece pieces ih =>
    obtain ⟨fuel, rfl⟩ : ∃ k, fuel = k + 1 := ⟨fuel - 1, by simp at hfuel; omega⟩
    have hfollows := separate_follows hchain
    have hnal := hfree piece List.mem_cons_self
    have hfind : findAnnexBStartCode (front ++ bytesOf (piece :: pieces)) front.length =
        some (front.length, piece.code.length) :=
      @findAnnexBStartCode_nal front [] (piece :: pieces) embedless_nil
        (follows_nil (piece :: pieces))
    have hbytes : front ++ bytesOf (piece :: pieces) =
        front ++ piece.code ++ (piece.nal ++ bytesOf pieces) := by
      rw [bytesOf_cons, List.append_assoc]
    have hnext := @findAnnexBStartCode_nal (front ++ piece.code) _ pieces hnal hfollows
    have hstop : ((findAnnexBStartCode (front ++ bytesOf (piece :: pieces))
        (front.length + piece.code.length)).map (·.1)).getD
          (front ++ bytesOf (piece :: pieces)).length =
        (front ++ piece.code ++ piece.nal).length := by
      rw [hbytes, ← List.length_append, hnext]
      cases pieces with
      | nil => simp [bytesOf]
      | cons next pieces => simp [Nat.add_assoc]
    have hunit : ((front ++ bytesOf (piece :: pieces)).drop (front.length + piece.code.length)).take
        ((front ++ piece.code ++ piece.nal).length - (front.length + piece.code.length)) =
        piece.nal := by
      rw [hbytes, ← List.length_append, List.drop_left, List.length_append,
        Nat.add_sub_cancel_left, List.take_left]
    unfold collectAvcc
    rw [hfind]
    dsimp only
    rw [hstop, hunit]
    have hrest := ih (front ++ piece.code ++ piece.nal)
      (fun other hmem => hfree other (List.mem_cons_of_mem _ hmem)) hchain.tail
      (Nat.lt_of_succ_lt_succ hfuel)
      (sets.push NalType.parameterSet piece.nal)
    rw [List.append_assoc _ piece.nal, ← hbytes] at hrest
    exact hrest

theorem avccParameterSets_bytes
    (hfree : ∀ piece ∈ pieces, Embedless piece.nal) (hchain : pieces.IsChain Separate) :
    avccParameterSets (bytesOf pieces) =
      pushAll NalType.parameterSet .empty (pieces.map (·.nal)) := by
  have hfuel : pieces.length ≤ (bytesOf pieces).length := length_le_bytesOf pieces
  exact collectAvcc_bytes [] hfree hchain (Nat.lt_succ_of_le hfuel) .empty

/-! ## The scan for HEVC -/

/-- What stands in front of the first long start code. -/
def lead : List Piece → List UInt8
  | [] => []
  | piece :: pieces =>
    if piece.wide then [] else shortStartCode ++ (piece.nal ++ lead pieces)

/-- The units as the long start codes split them. -/
def chunks : List Piece → List (List UInt8)
  | [] => []
  | piece :: pieces =>
    if piece.wide then (piece.nal ++ lead pieces) :: chunks pieces else chunks pieces

theorem length_chunks (pieces : List Piece) :
    (chunks pieces).length = (pieces.filter (·.wide)).length := by
  induction pieces with
  | nil => rfl
  | cons piece pieces ih =>
    unfold chunks
    cases hwide : piece.wide <;> simp [hwide, ih]

/-- **Long start codes alone** split the buffer into the units. -/
theorem chunks_of_wide (hwide : ∀ piece ∈ pieces, piece.wide = true) :
    chunks pieces = pieces.map (·.nal) := by
  induction pieces with
  | nil => rfl
  | cons piece pieces ih =>
    have hrest := ih fun other hmem => hwide other (List.mem_cons_of_mem _ hmem)
    have hlead : lead pieces = [] := by
      cases pieces with
      | nil => rfl
      | cons next pieces => simp [lead, hwide next]
    unfold chunks
    rw [if_pos (hwide piece List.mem_cons_self), hrest, hlead, List.append_nil]
    rfl

/-- A chunk begins as its first unit does. -/
theorem unitsOf_chunks_eq_nil {parameterSet : UInt8 → Option ParameterSet}
    (hkinds : ∀ piece ∈ pieces, (piece.nal.head?.bind parameterSet).isSome) (kind : ParameterSet) :
    unitsOf parameterSet kind (chunks pieces) = [] ↔
      ∀ piece ∈ pieces, piece.wide = true → piece.nal.head?.bind parameterSet ≠ some kind := by
  induction pieces with
  | nil => simp [chunks, unitsOf]
  | cons piece pieces ih =>
    have hrest := ih fun other hmem => hkinds other (List.mem_cons_of_mem _ hmem)
    have hhead : (piece.nal ++ lead pieces).head? = piece.nal.head? := by
      cases hnal : piece.nal with
      | nil =>
        have hsome := hkinds piece List.mem_cons_self
        rw [hnal] at hsome
        cases hsome
      | cons byte bytes => rfl
    rw [List.forall_mem_cons, ← hrest, chunks]
    cases hwide : piece.wide with
    | false => simp
    | true =>
      by_cases hkind : piece.nal.head?.bind parameterSet = some kind
      · simp [unitsOf, hhead, hkind]
      · simp [unitsOf, hhead, hkind]

theorem bytesOf_chunks (pieces : List Piece) :
    bytesOf pieces = lead pieces ++ joined started (chunks pieces) := by
  induction pieces with
  | nil => rfl
  | cons piece pieces ih =>
    rw [bytesOf_cons, ih]
    simp only [Piece.code, lead, chunks]
    split
    · rw [joined_cons, List.nil_append, started, List.append_assoc, List.append_assoc]
    · simp only [List.append_assoc]

theorem startCodeFree_iff {buf : List UInt8} : StartCodeFree buf ↔ ∀ p, ¬ StartsAt buf p := by
  constructor
  · intro h p hstarts
    exact h (hstarts.isInfix.trans (List.drop_suffix p buf).isInfix)
  · rintro h ⟨before, behind, rfl⟩
    apply h before.length
    unfold StartsAt
    rw [List.append_assoc, List.drop_left]
    exact List.prefix_append _ _

/-- **A unit with the short pieces behind it** has no long start code. -/
theorem nal_lead_free (hnal : Embedless nal)
    (hlead : ∀ piece ∈ pieces.head?, piece.wide = true ∨ nal.getLast? ≠ some 0)
    (hfree : ∀ piece ∈ pieces, Embedless piece.nal) (hchain : pieces.IsChain Separate) :
    StartCodeFree (nal ++ lead pieces) := by
  induction pieces generalizing nal with
  | nil =>
    rw [lead, List.append_nil]
    exact hnal.startCodeFree
  | cons piece pieces ih =>
    cases hwide : piece.wide with
    | true =>
      simp only [lead, hwide, if_true, List.append_nil]
      exact hnal.startCodeFree
    | false =>
      have hzero : nal.getLast? ≠ some 0 := by
        rcases hlead piece rfl with h | h
        · rw [hwide] at h
          cases h
        · exact h
      have hrest : StartCodeFree (piece.nal ++ lead pieces) := by
        apply ih (hfree piece List.mem_cons_self) _
          (fun other hmem => hfree other (List.mem_cons_of_mem _ hmem)) hchain.tail
        intro next hnext
        exact hchain.rel_head? hnext
      simp only [lead, hwide, Bool.false_eq_true, if_false]
      rw [startCodeFree_iff] at hrest ⊢
      intro p
      unfold StartsAt at hrest ⊢
      by_cases hp : p < nal.length
      · have hfollows : Follows nal (shortStartCode ++ (piece.nal ++ lead pieces)) :=
          .inr (.inr ⟨List.prefix_append _ _, hzero⟩)
        exact (hfollows.not_prefix hnal hp).1
      · rw [List.drop_append, List.drop_of_length_le (Nat.le_of_not_lt hp), List.nil_append]
        -- the short code itself, and then what is behind it
        match p - nal.length with
        | 0 => simp [startCode, shortStartCode]
        | 1 => simp [startCode, shortStartCode]
        | 2 => simp [startCode, shortStartCode]
        | q + 3 => exact hrest q

/-- **The run up to the next start code.** -/
theorem run_to_code {data : List UInt8} {fuel stop : Nat} {scan : HvccScan}
    (hpos : scan.pos ≤ stop) (hbefore : ∀ p, scan.pos ≤ p → p < stop → ¬ StartsAt data p)
    (hstop : StartsAt data stop) (hfuel : data.length - scan.pos ≤ fuel) :
    ∃ fuel', data.length - (stop + 4) ≤ fuel' ∧
      HvccScan.run data fuel scan =
        HvccScan.run data fuel' ⟨stop + 4, some (stop + 4), scan.close data stop⟩ := by
  have hinside := hstop.inside
  obtain ⟨pos, nalStart, sets⟩ := scan
  dsimp only at hpos hbefore hfuel
  obtain ⟨gap, rfl⟩ : ∃ k, stop = pos + k := ⟨stop - pos, by omega⟩
  induction gap generalizing pos fuel with
  | zero =>
    obtain ⟨fuel, rfl⟩ : ∃ k, fuel = k + 1 := ⟨fuel - 1, by omega⟩
    refine ⟨fuel, by omega, ?_⟩
    unfold StartsAt at hstop
    rw [Nat.add_zero] at hstop
    conv_lhs => unfold HvccScan.run
    dsimp only
    rw [if_pos (by omega), if_pos hstop]
    rfl
  | succ gap ih =>
    obtain ⟨fuel, rfl⟩ : ∃ k, fuel = k + 1 := ⟨fuel - 1, by omega⟩
    have hnone := hbefore pos (Nat.le_refl _) (by omega)
    have hshift : pos + (gap + 1) = pos + 1 + gap := by omega
    rw [hshift] at hstop hinside hbefore ⊢
    obtain ⟨fuel', hle, hrun⟩ := @ih fuel (pos + 1) (by omega) hstop hinside (by omega)
      (fun p hlow hhigh => hbefore p (by omega) hhigh)
    refine ⟨fuel', hle, ?_⟩
    unfold StartsAt at hnone
    conv_lhs => unfold HvccScan.run
    dsimp only
    rw [if_pos (by omega), if_neg hnone]
    exact hrun

/-- **The run to the end**, where no start code is left. -/
theorem run_to_end {scan : HvccScan} (hnone : ∀ p, scan.pos ≤ p → ¬ StartsAt data p) :
    (HvccScan.run data fuel scan).close data data.length = scan.close data data.length := by
  induction fuel generalizing scan with
  | zero => rfl
  | succ fuel ih =>
    unfold HvccScan.run
    split
    · have hhere := hnone scan.pos (Nat.le_refl _)
      unfold StartsAt at hhere
      rw [if_neg hhere, ih fun p hp => hnone p (Nat.le_of_succ_le hp)]
      rfl
    · rfl

/-- **Every chunk is collected** by the writer for HEVC, once the first has begun. -/
theorem run_chunks (front : List UInt8) {rest : List (List UInt8)}
    (hnal : StartCodeFree nal) (hrest : ∀ other ∈ rest, StartCodeFree other)
    (hfuel : (front ++ (nal ++ joined started rest)).length - front.length ≤ fuel)
    (sets : ParameterSets) :
    (HvccScan.run (front ++ (nal ++ joined started rest)) fuel
        ⟨front.length, some front.length, sets⟩).close (front ++ (nal ++ joined started rest))
        (front ++ (nal ++ joined started rest)).length =
      pushAll HevcNalType.parameterSet sets (nal :: rest) := by
  induction rest generalizing front nal fuel sets with
  | nil =>
    rw [run_to_end]
    · unfold HvccScan.close
      dsimp only
      rw [List.drop_left, List.length_append, Nat.add_sub_cancel_left, List.take_length]
      rw [show joined started [] = [] from rfl, List.append_nil]
      rfl
    · intro p hp hstarts
      by_cases hlow : p < front.length + nal.length
      · exact not_startsAt_of_free hnal (joined_started_cases []) hp hlow hstarts
      · have hinside := hstarts.inside
        simp [joined] at hinside
        omega
  | cons next rest ih =>
    have hbefore : ∀ p, front.length ≤ p → p < front.length + nal.length →
        ¬ StartsAt (front ++ (nal ++ joined started (next :: rest))) p := fun p hlow hhigh =>
      not_startsAt_of_free hnal (joined_started_cases (next :: rest)) hlow hhigh
    have hbytes : front ++ (nal ++ joined started (next :: rest)) =
        front ++ nal ++ startCode ++ (next ++ joined started rest) := by
      rw [joined_cons, started]
      simp only [List.append_assoc]
    have hstop : StartsAt (front ++ (nal ++ joined started (next :: rest)))
        (front.length + nal.length) := by
      unfold StartsAt
      rw [hbytes, ← List.length_append, List.append_assoc (front ++ nal), List.drop_left]
      exact List.prefix_append _ _
    have hunit : ((front ++ (nal ++ joined started (next :: rest))).drop front.length).take
        (front.length + nal.length - front.length) = nal := by
      rw [List.drop_left, Nat.add_sub_cancel_left, List.take_left]
    obtain ⟨fuel', hle, hrun⟩ := @run_to_code _ fuel (front.length + nal.length)
      ⟨front.length, some front.length, sets⟩ (Nat.le_add_right _ _) hbefore hstop hfuel
    have hnext : front.length + nal.length + 4 = (front ++ nal ++ startCode).length := by
      rw [List.length_append, List.length_append]
      rfl
    have hclose : HvccScan.close ⟨front.length, some front.length, sets⟩
        (front ++ (nal ++ joined started (next :: rest))) (front.length + nal.length) =
        sets.push HevcNalType.parameterSet nal := by
      unfold HvccScan.close
      dsimp only
      rw [hunit]
    rw [hnext, hbytes] at hle
    rw [hrun, hclose, hnext, hbytes]
    exact ih (front ++ nal ++ startCode) (hrest next List.mem_cons_self)
      (fun other hmem => hrest other (List.mem_cons_of_mem _ hmem)) hle
      (sets.push HevcNalType.parameterSet nal)

theorem chunks_free (hfree : ∀ piece ∈ pieces, Embedless piece.nal)
    (hchain : pieces.IsChain Separate) : ∀ chunk ∈ chunks pieces, StartCodeFree chunk := by
  induction pieces with
  | nil => exact fun chunk hmem => nomatch hmem
  | cons piece pieces ih =>
    have hpieces := ih (fun other hmem => hfree other (List.mem_cons_of_mem _ hmem)) hchain.tail
    unfold chunks
    split
    · intro chunk hmem
      rcases List.mem_cons.mp hmem with rfl | hin
      · exact nal_lead_free (hfree piece List.mem_cons_self) hchain.rel_head?
          (fun other hother => hfree other (List.mem_cons_of_mem _ hother)) hchain.tail
      · exact hpieces chunk hin
    · exact hpieces

/-- **The chunks are collected** by the writer for HEVC. -/
theorem hvccParameterSets_bytes
    (hfree : ∀ piece ∈ pieces, Embedless piece.nal) (hchain : pieces.IsChain Separate) :
    hvccParameterSets (bytesOf pieces) =
      pushAll HevcNalType.parameterSet .empty (chunks pieces) := by
  have hlead : StartCodeFree (lead pieces) :=
    nal_lead_free embedless_nil (fun _ _ => .inr (by simp)) hfree hchain
  have hchunks := chunks_free hfree hchain
  have hbytes := bytesOf_chunks pieces
  unfold hvccParameterSets
  rw [hbytes]
  generalize chunks pieces = units at hchunks
  cases units with
  | nil =>
    rw [run_to_end]
    · rfl
    · intro p _ hstarts
      rw [show joined started [] = [] from rfl, List.append_nil] at hstarts
      exact startCodeFree_iff.mp hlead p hstarts
  | cons unit units =>
    have hjoined : lead pieces ++ joined started (unit :: units) =
        lead pieces ++ startCode ++ (unit ++ joined started units) := by
      rw [joined_cons, started]
      simp only [List.append_assoc]
    have hstop : StartsAt (lead pieces ++ joined started (unit :: units))
        (lead pieces).length := by
      unfold StartsAt
      rw [hjoined, List.append_assoc, List.drop_left]
      exact List.prefix_append _ _
    have hbefore : ∀ p, 0 ≤ p → p < (lead pieces).length →
        ¬ StartsAt (lead pieces ++ joined started (unit :: units)) p := fun p hlow hhigh =>
      @not_startsAt_of_free [] _ _ hlead (joined_started_cases (unit :: units)) p hlow
        (by simpa using hhigh)
    obtain ⟨fuel, hle, hrun⟩ := @run_to_code _
      (lead pieces ++ joined started (unit :: units)).length (lead pieces).length
      ⟨0, none, .empty⟩ (Nat.zero_le _) hbefore hstop (Nat.sub_le _ _)
    have hnext : (lead pieces).length + 4 = (lead pieces ++ startCode).length := by
      rw [List.length_append]
      rfl
    rw [hnext, hjoined] at hle
    rw [hrun, hnext, hjoined]
    exact run_chunks (lead pieces ++ startCode) (hchunks unit List.mem_cons_self)
      (fun other hmem => hchunks other (List.mem_cons_of_mem _ hmem)) hle .empty

end Catplay.Analysis.Video
