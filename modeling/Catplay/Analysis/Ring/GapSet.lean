import Catplay.Analysis.Ring.Timeline
import Catplay.Library.Run

/-!
# The gap bitmap as a set of positions

After any calls a position is a gap exactly when the last call over it marked it (`Tracks.call`),
and a search finds the first maximal run of gaps in its window (`search_firstRun`). The functions
assert that a region ends inside the bitmap. The ring gives a region that goes around the end in
its two parts, and joins what the two searches find (`FirstRun.joined`, `gap_bitmap_is_set`).
-/

set_option autoImplicit false

namespace Catplay.Analysis.Ring

open Catplay.Library Catplay.Library.Run Catplay.Model.Ring Bitmap

/-! ## Calls of the bitmap -/

/-- A call of `mark_region` or of `unmark_region`. -/
structure RegionCall where
  marks : Bool
  start : Nat
  len : Nat
  deriving DecidableEq, Repr

/-- Whether a position has been marked after a call. -/
def RegionCall.update (marked : Nat → Bool) (call : RegionCall) (i : Nat) : Bool :=
  if call.start ≤ i ∧ i < call.start + call.len then call.marks else marked i

/-- Unless a call returns at once it asserts that its region ends inside the bitmap. -/
def Bitmap.call (bm : Bitmap) (call : RegionCall) : Option Bitmap :=
  if call.marks then
    if call.len = 0 ∨ call.start + call.len ≤ bm.capacity then
      some (bm.markRegion call.start call.len)
    else none
  else
    if call.len = 0 ∨ bm.empty ∨ call.start + call.len ≤ bm.capacity then
      some (bm.unmarkRegion call.start call.len)
    else none

/-- The bits are the marked positions, all below the capacity, and the flag is true exactly when
there are none. -/
structure Tracks (bm : Bitmap) (marked : Nat → Bool) : Prop where
  sound : Sound bm
  bits : ∀ i, bit bm i = marked i
  below : ∀ i, marked i = true → i < bm.capacity
  flag : (∀ i, marked i = false) → bm.empty = true

theorem tracks_new (capacity : Nat) : Tracks (.new capacity) fun _ => false where
  sound := sound_new capacity
  bits := (sound_new capacity).empty rfl
  below _ h := by cases h
  flag _ := rfl

variable {bm bm' : Bitmap} {marked : Nat → Bool} {start len : Nat}

theorem Tracks.empty_iff (h : Tracks bm marked) : bm.empty = true ↔ ∀ i, marked i = false :=
  ⟨fun hempty i => (h.bits i).symm.trans (h.sound.empty hempty i), h.flag⟩

/-- A word that is not zero has a bit. -/
theorem bit_of_any_word (h : bm.gapBitmap.any (fun w => w != 0) = true) :
    ∃ i, bit bm i = true := by
  obtain ⟨w, hmem, hw⟩ := List.any_eq_true.mp h
  obtain ⟨wi, hwi, hget⟩ := List.getElem_of_mem hmem
  have hne : w ≠ 0#64 := bne_iff_ne.mp hw
  have hctz := BitVec.ctz_lt_iff_ne_zero.mpr hne
  rw [BitVec.lt_def] at hctz
  refine ⟨wi * 64 + w.ctz.toNat, ?_⟩
  have hlt : w.ctz.toNat < 64 := hctz
  unfold bit word
  rw [show (wi * 64 + w.ctz.toNat) / 64 = wi by omega,
    show (wi * 64 + w.ctz.toNat) % 64 = w.ctz.toNat by omega, List.getD_eq_getElem?_getD,
    List.getElem?_eq_getElem hwi, hget]
  exact BitVec.getLsbD_true_ctz_of_ne_zero hne

/-- **One call.** -/
theorem Tracks.call (h : Tracks bm marked) {call : RegionCall}
    (hcall : Bitmap.call bm call = some bm') :
    bm'.capacity = bm.capacity ∧ Tracks bm' (call.update marked) := by
  obtain ⟨marks, start, len⟩ := call
  cases marks with
  | true =>
    simp only [Bitmap.call, if_true, Option.ite_none_right_eq_some, Option.some.injEq] at hcall
    obtain ⟨hfits, rfl⟩ := hcall
    have hbits : ∀ i, bit (bm.markRegion start len) i =
        RegionCall.update marked ⟨true, start, len⟩ i := by
      intro i
      unfold RegionCall.update
      by_cases hzero : len = 0
      · have hmark : bm.markRegion start len = bm := if_pos hzero
        rw [hmark, h.bits, if_neg (by dsimp only; omega)]
      · rw [bit_markRegion h.sound (by omega), h.bits]
        by_cases hin : start ≤ i ∧ i < start + len
        · rw [decide_eq_true hin, Bool.or_true, if_pos hin]
        · rw [decide_eq_false hin, Bool.or_false, if_neg hin]
    refine ⟨capacity_markRegion bm start len, h.sound.markRegion start len, hbits, ?_, ?_⟩
    · intro i hi
      rw [capacity_markRegion]
      by_cases hin : start ≤ i ∧ i < start + len
      · omega
      · exact h.below i ((if_neg hin).symm.trans hi)
    · intro hnone
      by_cases hzero : len = 0
      · rw [show bm.markRegion start len = bm from if_pos hzero] at hbits ⊢
        exact h.flag fun i => (h.bits i).symm.trans ((hbits i).trans (hnone i))
      · have hfirst : RegionCall.update marked ⟨true, start, len⟩ start = true :=
          if_pos ⟨Nat.le_refl start, Nat.lt_add_of_pos_right (Nat.pos_of_ne_zero hzero)⟩
        rw [hnone] at hfirst
        cases hfirst
  | false =>
    simp only [Bitmap.call, Bool.false_eq_true, if_false, Option.ite_none_right_eq_some,
      Option.some.injEq] at hcall
    obtain ⟨hfits, rfl⟩ := hcall
    have hbits : ∀ i, bit (bm.unmarkRegion start len) i =
        RegionCall.update marked ⟨false, start, len⟩ i := by
      intro i
      unfold RegionCall.update
      by_cases hskip : len = 0 ∨ bm.empty
      · have hunmark : bm.unmarkRegion start len = bm := if_pos hskip
        rw [hunmark, h.bits]
        by_cases hin : start ≤ i ∧ i < start + len
        · rw [h.empty_iff.mp (hskip.resolve_left (by omega)) i, if_pos hin]
        · rw [if_neg hin]
      · rw [bit_unmarkRegion h.sound (by simp only [not_or] at hskip; simp_all), h.bits]
        by_cases hin : start ≤ i ∧ i < start + len
        · rw [decide_eq_true hin, Bool.not_true, Bool.and_false, if_pos hin]
        · rw [decide_eq_false hin, Bool.not_false, Bool.and_true, if_neg hin]
    refine ⟨capacity_unmarkRegion bm start len, h.sound.unmarkRegion start len, hbits, ?_, ?_⟩
    · intro i hi
      rw [capacity_unmarkRegion]
      by_cases hin : start ≤ i ∧ i < start + len
      · rw [show RegionCall.update marked ⟨false, start, len⟩ i = false from if_pos hin] at hi
        cases hi
      · exact h.below i ((if_neg hin).symm.trans hi)
    · intro hnone
      by_cases hskip : len = 0 ∨ bm.empty
      · rw [show bm.unmarkRegion start len = bm from if_pos hskip] at hbits ⊢
        exact h.flag fun i => (h.bits i).symm.trans ((hbits i).trans (hnone i))
      · rw [empty_unmarkRegion hskip]
        -- a word that is left would have a bit that is left
        have hall : (bm.unmarkRegion start len).gapBitmap.any (fun w => w != 0) = false := by
          by_contra hany
          obtain ⟨i, hi⟩ := bit_of_any_word (eq_true_of_ne_false hany)
          rw [hbits, hnone] at hi
          cases hi
        rw [hall]
        rfl

/-- **Any calls.** -/
theorem Tracks.run {calls : List RegionCall} (h : Tracks bm marked)
    (hrun : run Bitmap.call bm calls = some bm') :
    bm'.capacity = bm.capacity ∧ Tracks bm' (calls.foldl RegionCall.update marked) := by
  induction calls generalizing bm marked with
  | nil =>
    obtain rfl := Option.some.inj hrun
    exact ⟨rfl, h⟩
  | cons region calls ih =>
    obtain ⟨next, hcall, hrest⟩ := run_cons_eq_some.mp hrun
    obtain ⟨hcapacity, hnext⟩ := h.call hcall
    obtain ⟨hcapacity', hlast⟩ := ih hnext hrest
    exact ⟨hcapacity'.trans hcapacity, hlast⟩

/-! ## The first run of a window -/

/-- **The first maximal run** of marked positions in a window, clipped to it: where it starts and
how long it is. -/
def FirstRun (marked : Nat → Bool) (start stop : Nat) : Option (Nat × Nat) → Prop
  | none => ∀ i, start ≤ i → i < stop → marked i = false
  | some (first, count) =>
    start ≤ first ∧ 0 < count ∧ first + count ≤ stop ∧
      (∀ i, start ≤ i → i < first → marked i = false) ∧
      (∀ i, first ≤ i → i < first + count → marked i = true) ∧
      (first + count < stop → marked (first + count) = false)

/-- The bit behind the trailing ones. -/
theorem getLsbD_ctz_not {w : BitVec 64} (h : (~~~w).ctz.toNat < 64) :
    w.getLsbD (~~~w).ctz.toNat = false := by
  have hne : ~~~w ≠ 0#64 := BitVec.ctz_lt_iff_ne_zero.mp (BitVec.lt_def.mpr h)
  have hbit := BitVec.getLsbD_true_ctz_of_ne_zero hne
  rw [BitVec.getLsbD_not, decide_eq_true h, Bool.true_and] at hbit
  simpa using hbit

/-- **The run ends** at the end of the range or at a bit that is not set. -/
theorem extendRun_maximal {stop gapStart fuel nextWi run : Nat} (hfirst : start / 64 ≤ nextWi)
    (hle : start ≤ gapStart) (haligned : gapStart + run = nextWi * 64) (hstart : start < stop)
    (hfuel : (stop - 1) / 64 < nextWi + fuel)
    (hend : gapStart + bm.extendRun start stop gapStart fuel nextWi run < stop) :
    bit bm (gapStart + bm.extendRun start stop gapStart fuel nextWi run) = false := by
  induction fuel generalizing nextWi run with
  | zero =>
    have hrun : bm.extendRun start stop gapStart 0 nextWi run = run := rfl
    rw [hrun] at hend
    omega
  | succ fuel ih =>
    unfold extendRun at hend ⊢
    by_cases hmore : gapStart + run < stop ∧ nextWi ≤ (stop - 1) / 64
    · rw [if_pos hmore] at hend ⊢
      dsimp only at hend ⊢
      have hmask := fun b hb =>
        @getLsbD_maskedWord bm start stop nextWi b hstart hfirst hmore.2 hb
      by_cases hall : bm.maskedWord start stop nextWi = BitVec.allOnes 64
      · have hfull := hmask 63 (by decide)
        rw [hall, BitVec.getLsbD_allOnes, decide_eq_true (by decide : 63 < 64), eq_comm,
          Bool.and_eq_true, decide_eq_true_eq] at hfull
        rw [if_pos hall, show min (stop - (gapStart + run)) 64 = 64 by omega] at hend ⊢
        by_cases hdone : run + 64 = stop - gapStart
        · rw [if_pos hdone] at hend
          omega
        · rw [if_neg hdone] at hend ⊢
          exact ih (by omega) (by omega) (by omega) hend
      · rw [if_neg hall] at hend ⊢
        by_cases hzero : bm.maskedWord start stop nextWi = 0
        · rw [if_pos hzero] at hend ⊢
          have hbit := hmask 0 (by decide)
          rw [hzero, decide_eq_true (by omega), Bool.and_true] at hbit
          rw [haligned, ← Nat.add_zero (nextWi * 64), ← hbit]
          exact BitVec.getLsbD_zero
        · rw [if_neg hzero] at hend ⊢
          generalize hones : (~~~bm.maskedWord start stop nextWi).ctz.toNat = ones at hend ⊢
          have hones' : ones < 64 := by
            by_contra hlong
            refine hall (BitVec.eq_of_getLsbD_eq fun b hb => ?_)
            rw [getLsbD_of_lt_ctz_not hb (by omega), BitVec.getLsbD_allOnes, decide_eq_true hb]
          have hbit := getLsbD_ctz_not (hones ▸ hones')
          rw [hones, hmask ones hones', decide_eq_true (by omega), Bool.and_true] at hbit
          rwa [show gapStart + (run + min (min ones (stop - (gapStart + run))) 64) =
            nextWi * 64 + ones by omega]
    · rw [if_neg hmore] at hend ⊢
      omega

/-- **A search** finds the first run of its window. -/
theorem search_firstRun (h : Sound bm) (start len : Nat) :
    FirstRun (bit bm) start (start + len) (bm.searchNextGap start len) := by
  cases hsearch : bm.searchNextGap start len with
  | none => exact searchNextGap_none h hsearch
  | some gap =>
    obtain ⟨gapStart, run⟩ := gap
    obtain ⟨hle, hpos, hfits, hbefore, hset⟩ := searchNextGap_some hsearch
    refine ⟨hle, hpos, hfits, hbefore, hset, fun hend => ?_⟩
    unfold searchNextGap at hsearch
    by_cases hskip : len = 0 ∨ bm.empty
    · rw [if_pos hskip] at hsearch
      cases hsearch
    rw [if_neg hskip] at hsearch
    dsimp only at hsearch
    obtain ⟨hsome, -⟩ := @nextWord_spec bm start (start + len)
      ((start + len - 1) / 64 - start / 64 + 1) _ (Nat.le_refl _) (by omega) (by omega)
    split at hsearch
    · cases hsearch
    next wi hword =>
    obtain ⟨hwi, hlast, hne, -⟩ := hsome wi hword
    have htz : (bm.maskedWord start (start + len) wi).ctz.toNat < 64 :=
      BitVec.lt_def.mp (BitVec.ctz_lt_iff_ne_zero.mpr hne)
    have hmask := fun b hb => @getLsbD_maskedWord bm start (start + len) wi b (by omega) hwi hlast hb
    generalize hw : bm.maskedWord start (start + len) wi = w at hsearch htz hmask
    generalize hz : w.ctz.toNat = tz at hsearch htz
    generalize ho : (~~~(w >>> tz)).ctz.toNat = ones at hsearch
    split at hsearch
    · next htake =>
      simp only [Option.some.injEq, Prod.mk.injEq] at hsearch
      obtain ⟨rfl, rfl⟩ := hsearch
      omega
    · split at hsearch
      · next htake hshort =>
        simp only [Option.some.injEq, Prod.mk.injEq] at hsearch
        obtain ⟨rfl, rfl⟩ := hsearch
        have hbit := getLsbD_ctz_not (w := w >>> tz) (by omega)
        rw [ho, BitVec.getLsbD_ushiftRight, hmask _ (by omega), decide_eq_true (by omega),
          Bool.and_true] at hbit
        rw [← hbit]
        congr 1
        omega
      · next htake hlong =>
        simp only [Option.some.injEq, Prod.mk.injEq] at hsearch
        obtain ⟨rfl, rfl⟩ := hsearch
        exact extendRun_maximal (by omega) hle (by omega) (by omega) (by omega) hend

/-! ## Around the end -/

/-- What is found in a window of two parts that meet at `mid`. -/
def joinRuns (mid : Nat) : Option (Nat × Nat) → Option (Nat × Nat) → Option (Nat × Nat)
  | none, second => second
  | some (first, count), some (next, more) =>
    some (first, if first + count = mid ∧ next = mid then count + more else count)
  | some found, none => some found

theorem FirstRun.joined {mid stop : Nat} {first second : Option (Nat × Nat)} (hle : start ≤ mid)
    (hle' : mid ≤ stop) (hfirst : FirstRun marked start mid first)
    (hsecond : FirstRun marked mid stop second) :
    FirstRun marked start stop (joinRuns mid first second) := by
  cases first with
  | none =>
    have hbefore : ∀ i, start ≤ i → i < mid → marked i = false := hfirst
    cases second with
    | none =>
      intro i hi hlt
      by_cases hi' : i < mid
      · exact hbefore i hi hi'
      · exact hsecond i (by omega) hlt
    | some found =>
      obtain ⟨h1, h2, h3, h4, h5, h6⟩ := hsecond
      refine ⟨by omega, h2, h3, fun i hi hlt => ?_, h5, h6⟩
      by_cases hi' : i < mid
      · exact hbefore i hi hi'
      · exact h4 i (by omega) hlt
  | some found =>
    obtain ⟨first, count⟩ := found
    obtain ⟨h1, h2, h3, h4, h5, h6⟩ := hfirst
    cases second with
    | none =>
      refine ⟨h1, h2, by omega, h4, h5, fun hlt => ?_⟩
      by_cases hmid : first + count < mid
      · exact h6 hmid
      · exact hsecond _ (by omega) hlt
    | some found =>
      obtain ⟨next, more⟩ := found
      obtain ⟨k1, k2, k3, k4, k5, k6⟩ := hsecond
      dsimp only [joinRuns]
      by_cases hmerge : first + count = mid ∧ next = mid
      · obtain ⟨hend, rfl⟩ := hmerge
        rw [if_pos ⟨hend, rfl⟩]
        refine ⟨h1, by omega, by omega, h4, fun i hi hlt => ?_, fun hlt => ?_⟩
        · by_cases hi' : i < first + count
          · exact h5 i hi hi'
          · exact k5 i (by omega) (by omega)
        · rw [show first + (count + more) = next + more by omega] at hlt ⊢
          exact k6 hlt
      · rw [if_neg hmerge]
        refine ⟨h1, h2, by omega, h4, h5, fun hlt => ?_⟩
        by_cases hmid : first + count < mid
        · exact h6 hmid
        · exact k4 _ (by omega) (by omega)

/-- The same run somewhere else. -/
theorem FirstRun.shift (marked' : Nat → Bool) (base : Nat) {found : Option (Nat × Nat)}
    (hshift : ∀ j, j < len → marked' (base + j) = marked (start + j))
    (h : FirstRun marked start (start + len) found) :
    FirstRun marked' base (base + len) (found.map fun gap => (base + (gap.1 - start), gap.2)) := by
  have hat : ∀ i, base ≤ i → i < base + len → marked' i = marked (start + (i - base)) := by
    intro i hi hlt
    rw [← hshift _ (by omega), Nat.add_sub_cancel' hi]
  cases found with
  | none =>
    intro i hi hlt
    rw [hat i hi hlt]
    exact h _ (by omega) (by omega)
  | some gap =>
    obtain ⟨h1, h2, h3, h4, h5, h6⟩ := h
    refine ⟨by omega, h2, by omega, fun i hi hlt => ?_, fun i hi hlt => ?_, fun hlt => ?_⟩
    · rw [hat i hi (by omega)]
      exact h4 _ (by omega) (by omega)
    · rw [hat i (by omega) (by omega)]
      exact h5 _ (by omega) (by omega)
    · rw [hat _ (by omega) hlt, show start + (base + (gap.1 - start) + gap.2 - base) =
        gap.1 + gap.2 by omega]
      exact h6 (by omega)

variable {T : Type} {r : RingBuffer T}

/-- **The search of the ring** finds the first run of a window that may go around the end. -/
theorem searchGapAbs_firstRun (h : Framed r) (start : Nat) {len : Nat} (hcap : len ≤ r.capacity) :
    FirstRun (fun p => bit r.gaps (p % r.capacity)) start (start + len)
      (r.searchGapAbs start len) := by
  have hpos := h.capacity_pos
  have hlow : start % r.capacity < r.capacity := Nat.mod_lt _ hpos
  have hindex := fun j hj => mod_add_eq start r.capacity j hj
  have hfirst := (search_firstRun h.sound (start % r.capacity)
    (min len (r.capacity - start % r.capacity))).shift
    (fun p => bit r.gaps (p % r.capacity)) start fun j hj => by
      rw [hindex j (by omega), if_pos (by omega)]
  unfold RingBuffer.searchGapAbs
  rw [h.ringIndex]
  dsimp only
  generalize hs : start % r.capacity = s at hlow hindex hfirst ⊢
  by_cases hwrap : len > min len (r.capacity - s)
  · have hsecond := (search_firstRun h.sound 0 (len - (r.capacity - s))).shift
      (fun p => bit r.gaps (p % r.capacity)) (start + (r.capacity - s)) fun j hj => by
        rw [Nat.add_assoc, hindex _ (by omega), if_neg (by omega)]
        congr 1
        omega
    rw [show min len (r.capacity - s) = r.capacity - s by omega] at hfirst hwrap ⊢
    rw [show start + (r.capacity - s) + (len - (r.capacity - s)) = start + len by omega] at hsecond
    have hjoined := hfirst.joined (by omega) (by omega) hsecond
    simp only [hwrap, and_true, if_true]
    cases hone : r.gaps.searchNextGap s (r.capacity - s) with
    | none =>
      rw [hone] at hjoined
      cases htwo : r.gaps.searchNextGap 0 (len - (r.capacity - s)) with
      | none =>
        rw [htwo] at hjoined
        exact hjoined
      | some gap =>
        rw [htwo] at hjoined
        exact hjoined
    | some gap =>
      obtain ⟨first, count⟩ := gap
      obtain ⟨hle, -, hend, -⟩ := searchNextGap_some hone
      rw [hone] at hjoined
      dsimp only
      by_cases hmeet : first + count = r.capacity
      · rw [if_pos hmeet]
        cases htwo : r.gaps.searchNextGap 0 (len - (r.capacity - s)) with
        | none =>
          rw [htwo] at hjoined
          exact hjoined
        | some next =>
          rw [htwo] at hjoined
          dsimp only
          have hiff : (start + (first - s) + count = start + (r.capacity - s) ∧
              start + (r.capacity - s) + (next.1 - 0) = start + (r.capacity - s)) ↔ next.1 = 0 := by
            omega
          dsimp only [Option.map_some, joinRuns] at hjoined
          rwa [if_congr hiff rfl rfl] at hjoined
      · rw [if_neg hmeet]
        cases htwo : r.gaps.searchNextGap 0 (len - (r.capacity - s)) with
        | none =>
          rw [htwo] at hjoined
          exact hjoined
        | some next =>
          rw [htwo] at hjoined
          dsimp only [Option.map_some, joinRuns] at hjoined
          rwa [if_neg (by omega)] at hjoined
  · rw [show min len (r.capacity - s) = len by omega] at hfirst ⊢
    simp only [Nat.lt_irrefl, gt_iff_lt, and_false, if_false]
    cases hone : r.gaps.searchNextGap s len with
    | none =>
      rw [hone] at hfirst
      exact hfirst
    | some gap =>
      rw [hone] at hfirst
      exact hfirst

/-! ## Regions around the end -/

namespace RegionCall

/-- A region in its two parts, as the ring gives it: up to the end, and from position 0 on. -/
def parts (capacity : Nat) (call : RegionCall) : List RegionCall :=
  let firstLen := min (capacity - call.start) call.len
  [{ call with len := firstLen }, { call with start := 0, len := call.len - firstLen }]

/-- A region of a bitmap, which may go around its end. -/
def Inside (capacity : Nat) (call : RegionCall) : Prop :=
  call.start < capacity ∧ call.len ≤ capacity

instance (capacity : Nat) : DecidablePred (Inside capacity) := fun _ =>
  inferInstanceAs (Decidable (_ ∧ _))

/-- Whether a position has been marked after a call, when regions go around the end. -/
def updateAround (capacity : Nat) (marked : Nat → Bool) (call : RegionCall) (i : Nat) : Bool :=
  if i < capacity ∧ (i + (capacity - call.start)) % capacity < call.len then call.marks
  else marked i

/-- The two parts are the region. -/
theorem foldl_parts {capacity : Nat} {call : RegionCall} (h : Inside capacity call)
    (marked : Nat → Bool) :
    (call.parts capacity).foldl update marked = updateAround capacity marked call := by
  obtain ⟨hstart, hlen⟩ := h
  funext i
  have hcovers : (i < capacity ∧ (i + (capacity - call.start)) % capacity < call.len) ↔
      (call.start ≤ i ∧ i < call.start + min (capacity - call.start) call.len) ∨
        i < call.len - min (capacity - call.start) call.len := by
    by_cases hi : i < capacity
    · by_cases hbehind : call.start ≤ i
      · rw [show i + (capacity - call.start) = i - call.start + capacity by omega,
          Nat.add_mod_right, Nat.mod_eq_of_lt (by omega)]
        omega
      · rw [Nat.mod_eq_of_lt (by omega)]
        omega
    · omega
  unfold parts updateAround
  dsimp only [List.foldl_cons, List.foldl_nil, update]
  rw [if_congr hcovers rfl rfl]
  by_cases hback : i < call.len - min (capacity - call.start) call.len
  · rw [if_pos ⟨Nat.zero_le i, by omega⟩, if_pos (.inr hback)]
  · rw [if_neg (by omega)]
    exact if_congr ⟨.inl, fun h => h.resolve_right hback⟩ rfl rfl

end RegionCall

/-- A call as the ring makes it, with the two parts of its region. -/
def Bitmap.callAround (bm : Bitmap) (call : RegionCall) : Option Bitmap :=
  run Bitmap.call bm (call.parts bm.capacity)

/-- **What the last call over each position said**, when regions go around the end. -/
def lastMarkedAround (capacity : Nat) (calls : List RegionCall) : Nat → Bool :=
  calls.foldl (RegionCall.updateAround capacity) fun _ => false

theorem call_of_fits (bm : Bitmap) (call : RegionCall) (h : call.start + call.len ≤ bm.capacity) :
    ∃ next, Bitmap.call bm call = some next := by
  obtain ⟨marks, start, len⟩ := call
  cases marks with
  | true => exact ⟨bm.markRegion start len, if_pos (Or.inr h)⟩
  | false => exact ⟨bm.unmarkRegion start len, if_pos (Or.inr (Or.inr h))⟩

/-- **One call of the ring.** -/
theorem Tracks.callAround (h : Tracks bm marked) {call : RegionCall}
    (hinside : call.Inside bm.capacity) :
    ∃ next, Bitmap.callAround bm call = some next ∧ next.capacity = bm.capacity ∧
      Tracks next (call.updateAround bm.capacity marked) := by
  obtain ⟨hstart, hlen⟩ := id hinside
  obtain ⟨middle, hfirst⟩ := call_of_fits bm
    { call with len := min (bm.capacity - call.start) call.len } (by dsimp only; omega)
  have hcapacity := (h.call hfirst).1
  obtain ⟨next, hsecond⟩ := call_of_fits middle
    { call with start := 0, len := call.len - min (bm.capacity - call.start) call.len }
    (by dsimp only; omega)
  have hcalls : Run.run Bitmap.call bm (call.parts bm.capacity) = some next :=
    run_cons_eq_some.mpr ⟨middle, hfirst, run_cons_eq_some.mpr ⟨next, hsecond, rfl⟩⟩
  obtain ⟨hnext, htracks⟩ := h.run hcalls
  rw [RegionCall.foldl_parts hinside] at htracks
  exact ⟨next, hcalls, hnext, htracks⟩

/-- **Any calls of the ring.** -/
theorem Tracks.runAround (h : Tracks bm marked) {calls : List RegionCall}
    (hinside : ∀ call ∈ calls, call.Inside bm.capacity) :
    ∃ last, Run.run Bitmap.callAround bm calls = some last ∧ last.capacity = bm.capacity ∧
      Tracks last (calls.foldl (RegionCall.updateAround bm.capacity) marked) := by
  induction calls generalizing bm marked with
  | nil => exact ⟨bm, rfl, rfl, h⟩
  | cons call calls ih =>
    obtain ⟨next, hcall, hcapacity, hnext⟩ := h.callAround (hinside call List.mem_cons_self)
    obtain ⟨last, hrun, hlast, htracks⟩ := ih hnext fun c hc => by
      rw [hcapacity]
      exact hinside c (List.mem_cons_of_mem call hc)
    rw [hcapacity] at hlast htracks
    exact ⟨last, run_cons_eq_some.mpr ⟨next, hcall, hrun⟩, hlast, htracks⟩

/-- **The gap bitmap is a set of positions.** After any calls of the ring a position is a gap
exactly when the last call over it marked it, the flag says whether there is a gap, and the searches
of the bitmap and of the ring find the first maximal run of their window. -/
theorem gap_bitmap_is_set (capacity : Nat) (calls : List RegionCall)
    (hinside : ∀ call ∈ calls, call.Inside capacity) :
    ∃ bm, run Bitmap.callAround (.new capacity) calls = some bm ∧
      (∀ i, bit bm i = lastMarkedAround capacity calls i) ∧
      (bm.empty = true ↔ ∀ i, bit bm i = false) ∧
      (∀ start len, start + len ≤ capacity →
        FirstRun (lastMarkedAround capacity calls) start (start + len)
          (bm.searchNextGap start len)) ∧
      ∀ {T : Type} (r : RingBuffer T), Framed r → r.gaps = bm → ∀ start len, len ≤ r.capacity →
        FirstRun (fun p => lastMarkedAround capacity calls (p % r.capacity)) start (start + len)
          (r.searchGapAbs start len) := by
  obtain ⟨bm, hrun, -, htracks⟩ := (tracks_new capacity).runAround hinside
  have hbits : bit bm = lastMarkedAround capacity calls := funext htracks.bits
  refine ⟨bm, hrun, htracks.bits, ?_, fun start len _ => ?_, fun r hr hgaps start len hlen => ?_⟩
  · rw [htracks.empty_iff]
    exact forall_congr' fun i => by rw [htracks.bits]
  · exact hbits ▸ search_firstRun htracks.sound start len
  · have hsearch := searchGapAbs_firstRun hr start hlen
    rw [hgaps, hbits] at hsearch
    exact hsearch

/-- A region around the end, of which the middle is unmarked. -/
theorem gap_bitmap_is_set_around :
    (∀ call ∈ [RegionCall.mk true 60 8, ⟨false, 63, 2⟩], call.Inside 64) ∧
      ∃ bm, run Bitmap.callAround (.new 64) [⟨true, 60, 8⟩, ⟨false, 63, 2⟩] = some bm ∧
        ∀ i, bit bm i = lastMarkedAround 64 [⟨true, 60, 8⟩, ⟨false, 63, 2⟩] i := by
  have hinside : ∀ call ∈ [RegionCall.mk true 60 8, ⟨false, 63, 2⟩], call.Inside 64 := by decide
  obtain ⟨bm, hrun, hbits, -⟩ := gap_bitmap_is_set 64 [⟨true, 60, 8⟩, ⟨false, 63, 2⟩] hinside
  exact ⟨hinside, bm, hrun, hbits⟩

/-- **A call of the bitmap itself** does not take a region around the end. -/
theorem bitmap_call_not_around :
    ¬ ∀ (capacity : Nat) (calls : List RegionCall), (∀ call ∈ calls, call.Inside capacity) →
      ∃ bm, run Bitmap.call (.new capacity) calls = some bm ∧
        ∀ i < capacity, bit bm i = lastMarkedAround capacity calls i := by
  intro h
  obtain ⟨bm, hrun, -⟩ := h 64 [⟨true, 60, 8⟩] (by decide)
  cases hrun

end Catplay.Analysis.Ring
