import Catplay.Model.Ring.RingBuffer

/-!
# Gaps and storage of the ring

The gap bitmap as a set, and the storage that is kept twice.
-/

set_option autoImplicit false

/-!
## What the gap bitmap says

The bitmap is the set of positions whose bit is set. Marking and unmarking a region adds and
removes exactly its positions (`bit_markRegion`, `bit_unmarkRegion`), and a search finds the
first position of the set in a range and a run of positions of the set from there
(`searchNextGap_some`, `searchNextGap_none`).
-/

namespace Catplay.Analysis.Ring

open Catplay.Model.Ring Catplay.Model.Ring.Bitmap

/-- Whether a position is a gap. -/
def bit (bm : Bitmap) (i : Nat) : Bool := (word bm.gapBitmap (i / 64)).getLsbD (i % 64)

/-! ### Masks -/

theorem getLsbD_lowMask {count : Nat} (hcount : count < 64) (b : Nat) :
    (lowMask count).getLsbD b = decide (b < count) := by
  have hpow : 2 ^ count < 2 ^ 64 := Nat.pow_lt_pow_right (by decide) hcount
  have hpos : 0 < 2 ^ count := Nat.two_pow_pos count
  have hshift : (1#64 <<< count).toNat = 2 ^ count := by
    rw [BitVec.toNat_shiftLeft, BitVec.toNat_ofNat, Nat.shiftLeft_eq, Nat.one_mod,
      Nat.one_mul, Nat.mod_eq_of_lt hpow]
  have hvalue : (lowMask count).toNat = 2 ^ count - 1 := by
    unfold lowMask
    rw [BitVec.toNat_sub_of_le, hshift]
    · rfl
    · rw [BitVec.le_def, hshift]
      exact hpos
  rw [← BitVec.testBit_toNat, hvalue, Nat.testBit_two_pow_sub_one]

/-- The part of a region that lies in one word. -/
def regionMask (start stop wi : Nat) : BitVec 64 :=
  if wi = start / 64 then firstMask start stop
  else if start / 64 < wi ∧ wi < (stop - 1) / 64 then BitVec.allOnes 64
  else if wi = (stop - 1) / 64 then lastMask stop
  else 0

variable {b start stop len : Nat} {bm : Bitmap}

theorem getLsbD_firstMask (hregion : start < stop) (hb : b < 64) :
    (firstMask start stop).getLsbD b =
      decide (start ≤ start / 64 * 64 + b ∧ start / 64 * 64 + b < stop) := by
  have hlow : start % 64 < 64 := Nat.mod_lt _ (by decide)
  have hhigh : stop % 64 < 64 := Nat.mod_lt _ (by decide)
  unfold firstMask
  by_cases hword : start / 64 = (stop - 1) / 64
  · by_cases hstop : stop % 64 = 0
    · rw [if_pos hword, if_pos hstop, BitVec.getLsbD_not, getLsbD_lowMask hlow]
      simp only [hb, decide_true, Bool.true_and, ← decide_not, decide_eq_decide]
      omega
    · rw [if_pos hword, if_neg hstop, BitVec.getLsbD_and, BitVec.getLsbD_not,
        getLsbD_lowMask hlow, getLsbD_lowMask hhigh]
      simp only [hb, decide_true, Bool.true_and, ← decide_not, ← Bool.decide_and, decide_eq_decide]
      omega
  · rw [if_neg hword, BitVec.getLsbD_not, getLsbD_lowMask hlow]
    simp only [hb, decide_true, Bool.true_and, ← decide_not, decide_eq_decide]
    omega

theorem getLsbD_lastMask (hstop : 0 < stop) (hb : b < 64) :
    (lastMask stop).getLsbD b = decide ((stop - 1) / 64 * 64 + b < stop) := by
  have hhigh : stop % 64 < 64 := Nat.mod_lt _ (by decide)
  unfold lastMask
  by_cases hzero : stop % 64 = 0
  · rw [if_pos hzero, BitVec.getLsbD_allOnes, decide_eq_decide]
    omega
  · rw [if_neg hzero, getLsbD_lowMask hhigh, decide_eq_decide]
    omega

/-- **The mask of a region** has the bits of its positions. -/
theorem getLsbD_regionMask {wi : Nat} (hregion : start < stop) (hb : b < 64) :
    (regionMask start stop wi).getLsbD b =
      decide (start ≤ wi * 64 + b ∧ wi * 64 + b < stop) := by
  unfold regionMask
  by_cases hfirst : wi = start / 64
  · rw [if_pos hfirst, getLsbD_firstMask hregion hb, hfirst]
  rw [if_neg hfirst]
  by_cases hbetween : start / 64 < wi ∧ wi < (stop - 1) / 64
  · rw [if_pos hbetween, BitVec.getLsbD_allOnes, decide_eq_decide]
    omega
  rw [if_neg hbetween]
  by_cases hlast : wi = (stop - 1) / 64
  · rw [if_pos hlast, getLsbD_lastMask (by omega) hb, decide_eq_decide]
    omega
  · rw [if_neg hlast]
    symm
    rw [BitVec.ofNat_eq_ofNat, BitVec.getLsbD_zero, decide_eq_false_iff_not]
    omega

/-! ### Words -/

theorem word_set (bm : List (BitVec 64)) (wi j : Nat) (value : BitVec 64) :
    word (bm.set wi value) j = if j = wi ∧ wi < bm.length then value else word bm j := by
  unfold word
  rw [List.getD_eq_getElem?_getD, List.getElem?_set, List.getD_eq_getElem?_getD]
  by_cases hj : wi = j
  · subst hj
    by_cases hlength : wi < bm.length
    · simp [hlength]
    · simp [hlength]
  · simp [hj, Ne.symm hj]

theorem length_fillWords (bm : List (BitVec 64)) (lo hi : Nat) (value : BitVec 64) :
    (fillWords bm lo hi value).length = bm.length := by
  unfold fillWords
  generalize hi - lo = count
  induction count generalizing bm lo with
  | zero => rfl
  | succ count ih =>
    rw [List.range'_succ, List.foldl_cons, ih, List.length_set]

theorem word_fillWords (bm : List (BitVec 64)) (lo hi j : Nat) (value : BitVec 64) :
    word (fillWords bm lo hi value) j =
      if lo ≤ j ∧ j < hi ∧ j < bm.length then value else word bm j := by
  have hfold : ∀ (count lo : Nat) (bm : List (BitVec 64)),
      word ((List.range' lo count).foldl (fun bm w => bm.set w value) bm) j =
        if lo ≤ j ∧ j < lo + count ∧ j < bm.length then value else word bm j := by
    intro count
    induction count with
    | zero =>
      intro lo bm
      rw [if_neg (by omega)]
      rfl
    | succ count ih =>
      intro lo bm
      rw [List.range'_succ, List.foldl_cons, ih, List.length_set, word_set]
      by_cases hlater : lo + 1 ≤ j ∧ j < lo + 1 + count ∧ j < bm.length
      · rw [if_pos hlater, if_pos (by omega)]
      · rw [if_neg hlater]
        by_cases hhere : j = lo ∧ lo < bm.length
        · rw [if_pos hhere, if_pos (by omega)]
        · rw [if_neg hhere, if_neg (by omega)]
  unfold fillWords
  rw [hfold]
  by_cases hin : lo ≤ j ∧ j < hi ∧ j < bm.length
  · rw [if_pos hin, if_pos (by omega)]
  · rw [if_neg hin, if_neg (by omega)]

/-! ### Marking and unmarking -/

/-- The bits cover the capacity, and an empty bitmap has no bit set. -/
structure Sound (bm : Bitmap) : Prop where
  room : bm.capacity ≤ bm.gapBitmap.length * 64
  empty : bm.empty = true → ∀ i, bit bm i = false

/-- The writes that marking and unmarking have in common: `op` joins a word with the mask of
the region, and a whole word of the region becomes `fill`. -/
def updateRegion (op : BitVec 64 → BitVec 64 → BitVec 64) (fill : BitVec 64)
    (bm : List (BitVec 64)) (start stop : Nat) : List (BitVec 64) :=
  let first := start / 64
  let last := (stop - 1) / 64
  let bm := bm.set first (op (word bm first) (firstMask start stop))
  let bm := fillWords bm (first + 1) last fill
  if last ≠ first then bm.set last (op (word bm last) (lastMask stop)) else bm

theorem length_updateRegion (op : BitVec 64 → BitVec 64 → BitVec 64) (fill : BitVec 64)
    (bm : List (BitVec 64)) (start stop : Nat) :
    (updateRegion op fill bm start stop).length = bm.length := by
  unfold updateRegion
  dsimp only
  split
  · rw [List.length_set, length_fillWords, List.length_set]
  · rw [length_fillWords, List.length_set]

/-- **Every word is joined with its part of the region.** -/
theorem word_updateRegion {op : BitVec 64 → BitVec 64 → BitVec 64} {fill : BitVec 64}
    (hfill : ∀ w, op w (BitVec.allOnes 64) = fill) (hzero : ∀ w, op w 0 = w) {bm : List (BitVec 64)}
    (hregion : start < stop) (hroom : stop ≤ bm.length * 64) (wi : Nat) :
    word (updateRegion op fill bm start stop) wi =
      op (word bm wi) (regionMask start stop wi) := by
  have hlast : (stop - 1) / 64 < bm.length := by omega
  have hfirst : start / 64 ≤ (stop - 1) / 64 := by omega
  unfold updateRegion regionMask
  dsimp only
  by_cases hone : (stop - 1) / 64 = start / 64
  · rw [if_neg (by omega), word_fillWords, if_neg (by omega), word_set]
    by_cases hwi : wi = start / 64
    · rw [if_pos ⟨hwi, by omega⟩, if_pos hwi, hwi]
    · rw [if_neg (by omega), if_neg hwi, if_neg (by omega), if_neg (by omega), hzero]
  · rw [if_pos hone, word_set, length_fillWords, List.length_set, word_fillWords, List.length_set,
      word_set, word_fillWords, word_set]
    by_cases hwi : wi = start / 64
    · rw [if_neg (by omega), if_neg (by omega), if_pos ⟨hwi, by omega⟩, if_pos hwi, hwi]
    · by_cases hbetween : start / 64 < wi ∧ wi < (stop - 1) / 64
      · rw [if_neg (by omega), if_pos ⟨by omega, by omega, by simp; omega⟩, if_neg hwi,
          if_pos hbetween, hfill]
      · by_cases hlastWord : wi = (stop - 1) / 64
        · rw [if_pos ⟨hlastWord, hlast⟩, if_neg (by omega), if_neg (by omega), if_neg hwi,
            if_neg hbetween, if_pos hlastWord, hlastWord]
        · rw [if_neg (by omega), if_neg (by omega), if_neg (by omega), if_neg hwi,
            if_neg hbetween, if_neg hlastWord, hzero]

theorem gapBitmap_markRegion (hlen : len ≠ 0) :
    (bm.markRegion start len).gapBitmap =
      updateRegion (· ||| ·) (BitVec.allOnes 64) bm.gapBitmap start (start + len) := by
  unfold markRegion
  rw [if_neg hlen]
  rfl

theorem gapBitmap_unmarkRegion (hlen : ¬(len = 0 ∨ bm.empty)) :
    (bm.unmarkRegion start len).gapBitmap =
      updateRegion (fun w mask => w &&& ~~~mask) 0 bm.gapBitmap start (start + len) := by
  unfold unmarkRegion
  rw [if_neg hlen]
  rfl

theorem empty_unmarkRegion (hlen : ¬(len = 0 ∨ bm.empty)) :
    (bm.unmarkRegion start len).empty =
      if !((bm.unmarkRegion start len).gapBitmap.any fun w => w != 0) then true else bm.empty := by
  unfold unmarkRegion
  rw [if_neg hlen]

@[simp] theorem capacity_markRegion (bm : Bitmap) (start len : Nat) :
    (bm.markRegion start len).capacity = bm.capacity := by
  unfold markRegion
  split <;> rfl

@[simp] theorem capacity_unmarkRegion (bm : Bitmap) (start len : Nat) :
    (bm.unmarkRegion start len).capacity = bm.capacity := by
  unfold unmarkRegion
  split <;> rfl

/-- **Marking** adds the positions of the region. -/
theorem bit_markRegion (h : Sound bm) (hfits : start + len ≤ bm.capacity) (i : Nat) :
    bit (bm.markRegion start len) i = (bit bm i || decide (start ≤ i ∧ i < start + len)) := by
  by_cases hlen : len = 0
  · have hmark : bm.markRegion start len = bm := by
      unfold markRegion
      rw [if_pos hlen]
    rw [hmark, decide_eq_false (by omega), Bool.or_false]
  · have hroom := h.room
    unfold bit
    rw [gapBitmap_markRegion hlen, word_updateRegion (fun w => BitVec.or_allOnes)
      (fun w => BitVec.or_zero) (by omega) (by omega), BitVec.getLsbD_or,
      getLsbD_regionMask (by omega) (Nat.mod_lt _ (by decide)), Nat.div_add_mod']

/-- **Unmarking** removes the positions of the region. -/
theorem bit_unmarkRegion (h : Sound bm) (hfits : start + len ≤ bm.capacity) (i : Nat) :
    bit (bm.unmarkRegion start len) i = (bit bm i && !decide (start ≤ i ∧ i < start + len)) := by
  by_cases hlen : len = 0 ∨ bm.empty
  · have hunmark : bm.unmarkRegion start len = bm := by
      unfold unmarkRegion
      rw [if_pos hlen]
    rw [hunmark]
    rcases hlen with hlen | hempty
    · rw [decide_eq_false (by omega), Bool.not_false, Bool.and_true]
    · rw [h.empty hempty, Bool.false_and]
  · have hroom := h.room
    have hpos : len ≠ 0 := fun hzero => hlen (Or.inl hzero)
    have hmod : i % 64 < 64 := Nat.mod_lt _ (by decide)
    unfold bit
    rw [gapBitmap_unmarkRegion hlen, word_updateRegion (by simp)
        (fun w => by rw [BitVec.ofNat_eq_ofNat, BitVec.not_zero, BitVec.and_allOnes])
        (by omega) (by omega),
      BitVec.getLsbD_and, BitVec.getLsbD_not, getLsbD_regionMask (by omega) hmod,
      Nat.div_add_mod', decide_eq_true hmod, Bool.true_and]

theorem Sound.markRegion (h : Sound bm) (start len : Nat) :
    Sound (bm.markRegion start len) := by
  by_cases hlen : len = 0
  · unfold Bitmap.markRegion
    rw [if_pos hlen]
    exact h
  · refine ⟨?_, ?_⟩
    · rw [gapBitmap_markRegion hlen, length_updateRegion, capacity_markRegion]
      exact h.room
    · intro hempty
      unfold Bitmap.markRegion at hempty
      rw [if_neg hlen] at hempty
      cases hempty

theorem Sound.unmarkRegion (h : Sound bm) (start len : Nat) :
    Sound (bm.unmarkRegion start len) := by
  by_cases hlen : len = 0 ∨ bm.empty
  · unfold Bitmap.unmarkRegion
    rw [if_pos hlen]
    exact h
  · refine ⟨?_, ?_⟩
    · rw [gapBitmap_unmarkRegion hlen, length_updateRegion, capacity_unmarkRegion]
      exact h.room
    · intro hempty i
      -- the flag is only set when every word is zero
      have hzero : (bm.unmarkRegion start len).gapBitmap.any (fun w => w != 0) = false := by
        rw [empty_unmarkRegion hlen] at hempty
        by_cases hany : (bm.unmarkRegion start len).gapBitmap.any (fun w => w != 0) = true
        · rw [hany] at hempty
          exact absurd (Or.inr hempty) hlen
        · exact eq_false_of_ne_true hany
      have hword : word (bm.unmarkRegion start len).gapBitmap (i / 64) = 0 := by
        unfold word
        rw [List.getD_eq_getElem?_getD]
        cases hget : (bm.unmarkRegion start len).gapBitmap[i / 64]? with
        | none => rfl
        | some w =>
          have hmem := List.mem_of_getElem? hget
          have hw := (List.any_eq_false.mp hzero) w hmem
          simpa using hw
      unfold bit
      rw [hword]
      exact BitVec.getLsbD_zero

theorem sound_new (capacity : Nat) : Sound (Bitmap.new capacity) := by
  refine ⟨?_, ?_⟩
  · show capacity ≤ (List.replicate ((capacity + 63) / 64) 0).length * 64
    rw [List.length_replicate]
    omega
  · intro _ i
    have hword : word (Bitmap.new capacity).gapBitmap (i / 64) = 0 := by
      unfold Bitmap.new word
      dsimp only
      rw [List.getD_eq_getElem?_getD, List.getElem?_replicate]
      split <;> rfl
    unfold bit
    rw [hword]
    exact BitVec.getLsbD_zero

/-! ### Searching -/

/-- A masked word has the bits of its word inside the range. -/
theorem getLsbD_maskedWord {bm : Bitmap} {start stop wi b : Nat} (hregion : start < stop)
    (hfirst : start / 64 ≤ wi) (hlast : wi ≤ (stop - 1) / 64) (hb : b < 64) :
    (bm.maskedWord start stop wi).getLsbD b =
      (bit bm (wi * 64 + b) && decide (start ≤ wi * 64 + b ∧ wi * 64 + b < stop)) := by
  have hlow : start % 64 < 64 := Nat.mod_lt _ (by decide)
  have hhigh : stop % 64 < 64 := Nat.mod_lt _ (by decide)
  have hbit : bit bm (wi * 64 + b) = (word bm.gapBitmap wi).getLsbD b := by
    unfold bit
    rw [show (wi * 64 + b) / 64 = wi by omega, show (wi * 64 + b) % 64 = b by omega]
  have hdecide : decide (start ≤ wi * 64 + b ∧ wi * 64 + b < stop) =
      (decide (wi = start / 64 → start % 64 ≤ b) &&
        decide (wi = (stop - 1) / 64 ∧ stop % 64 ≠ 0 → b < stop % 64)) := by
    rw [← Bool.decide_and, decide_eq_decide]
    omega
  rw [hbit, hdecide]
  unfold maskedWord
  dsimp only
  generalize word bm.gapBitmap wi = w
  by_cases hfirstWord : wi = start / 64 ∧ start % 64 ≠ 0
  · rw [if_pos hfirstWord]
    by_cases hlastWord : wi = (stop - 1) / 64 ∧ stop % 64 ≠ 0
    · rw [if_pos hlastWord]
      simp only [BitVec.getLsbD_and, BitVec.getLsbD_not, getLsbD_lowMask hlow,
        getLsbD_lowMask hhigh, hb, decide_true, Bool.true_and, Bool.and_assoc, ← decide_not]
      congr 2
      · rw [decide_eq_decide]
        omega
      · rw [decide_eq_decide]
        exact ⟨fun h _ => h, fun h => h hlastWord⟩
    · rw [if_neg hlastWord, decide_eq_true (p := wi = (stop - 1) / 64 ∧ stop % 64 ≠ 0 → _)
        (fun h => absurd h hlastWord)]
      simp only [BitVec.getLsbD_and, BitVec.getLsbD_not, getLsbD_lowMask hlow, hb, decide_true,
        Bool.true_and, Bool.and_true, ← decide_not]
      congr 1
      rw [decide_eq_decide]
      omega
  · have hall : (wi = start / 64 → start % 64 ≤ b) := by omega
    rw [if_neg hfirstWord, decide_eq_true hall, Bool.true_and]
    by_cases hlastWord : wi = (stop - 1) / 64 ∧ stop % 64 ≠ 0
    · rw [if_pos hlastWord, BitVec.getLsbD_and, getLsbD_lowMask hhigh]
      congr 1
      rw [decide_eq_decide]
      exact ⟨fun h _ => h, fun h => h hlastWord⟩
    · rw [if_neg hlastWord, decide_eq_true (fun h => absurd h hlastWord), Bool.and_true]

/-- No bit of the range lies in a word that is masked to zero. -/
theorem bit_of_maskedWord_eq_zero {i : Nat} (hin : start ≤ i ∧ i < stop)
    (hzero : bm.maskedWord start stop (i / 64) = 0) : bit bm i = false := by
  have hbit := @getLsbD_maskedWord bm start stop (i / 64) (i % 64) (by omega)
    (by omega) (by omega) (Nat.mod_lt _ (by decide))
  rw [hzero, Nat.div_add_mod', decide_eq_true hin, Bool.and_true] at hbit
  rw [← hbit]
  exact BitVec.getLsbD_zero

/-- **The next word.** Up to it no bit of the range is set. -/
theorem nextWord_spec {bm : Bitmap} {start stop fuel wi : Nat} (hfirst : start / 64 ≤ wi)
    (hlast : wi ≤ (stop - 1) / 64) (hfuel : (stop - 1) / 64 - wi < fuel) :
    (∀ w, bm.nextWord start stop fuel wi = some w →
      wi ≤ w ∧ w ≤ (stop - 1) / 64 ∧ bm.maskedWord start stop w ≠ 0 ∧
        ∀ j, wi ≤ j → j < w → bm.maskedWord start stop j = 0) ∧
    (bm.nextWord start stop fuel wi = none →
      ∀ j, wi ≤ j → j ≤ (stop - 1) / 64 → bm.maskedWord start stop j = 0) := by
  induction fuel generalizing wi with
  | zero => exact absurd hfuel (Nat.not_lt_zero _)
  | succ fuel ih =>
    unfold nextWord
    by_cases hfound : bm.maskedWord start stop wi ≠ 0
    · rw [if_pos hfound]
      refine ⟨?_, (fun h => by cases h)⟩
      intro w hw
      obtain rfl := Option.some.inj hw
      exact ⟨Nat.le_refl _, hlast, hfound, fun j hj hlt => by omega⟩
    · have hzero : bm.maskedWord start stop wi = 0 := not_not.mp hfound
      rw [if_neg hfound]
      by_cases hend : wi = (stop - 1) / 64
      · rw [if_pos hend]
        refine ⟨(fun w hw => by cases hw), fun _ j hj hle => ?_⟩
        rw [show j = wi by omega]
        exact hzero
      · rw [if_neg hend]
        obtain ⟨hsome, hnone⟩ := @ih (wi + 1) (by omega) (by omega) (by omega)
        constructor
        · intro w hw
          obtain ⟨hle, hlast', hne, hbefore⟩ := hsome w hw
          refine ⟨by omega, hlast', hne, fun j hj hlt => ?_⟩
          by_cases hhere : j = wi
          · rw [hhere]
            exact hzero
          · exact hbefore j (by omega) hlt
        · intro hn j hj hle
          by_cases hhere : j = wi
          · rw [hhere]
            exact hzero
          · exact hnone hn j (by omega) hle

/-- The bits of a run of positions are set. -/
def AllSet (bm : Bitmap) (start count : Nat) : Prop :=
  ∀ i, start ≤ i → i < start + count → bit bm i = true

theorem AllSet.append {count more : Nat} (hfirst : AllSet bm start count)
    (hmore : AllSet bm (start + count) more) : AllSet bm start (count + more) := by
  intro i hle hlt
  by_cases hi : i < start + count
  · exact hfirst i hle hi
  · exact hmore i (by omega) (by omega)

/-- Bits of a word below the trailing ones. -/
theorem getLsbD_of_lt_ctz_not {w : BitVec 64} (hb : b < 64)
    (hlt : b < (~~~w).ctz.toNat) : w.getLsbD b = true := by
  have hfalse := BitVec.getLsbD_false_of_lt_ctz hlt
  rw [BitVec.getLsbD_not, decide_eq_true hb, Bool.true_and] at hfalse
  simpa using hfalse

theorem ctz_not_pos {w : BitVec 64} (hw : w.getLsbD 0 = true) : 0 < (~~~w).ctz.toNat := by
  by_contra hzero
  have hctz : (~~~w).ctz.toNat = 0 := by omega
  by_cases hne : ~~~w = 0#64
  · apply BitVec.ctz_lt_iff_ne_zero.mp _ hne
    rw [BitVec.lt_def, hctz]
    decide
  · have hbit := BitVec.getLsbD_true_ctz_of_ne_zero hne
    rw [hctz, BitVec.getLsbD_not, hw] at hbit
    cases hbit

/-- **The run goes on** over set bits of the range only. -/
theorem extendRun_spec {bm : Bitmap} {start stop gapStart fuel nextWi run : Nat}
    (hfirst : start / 64 ≤ nextWi) (haligned : gapStart + run = nextWi * 64)
    (hstart : start < stop) (hstop : gapStart + run ≤ stop) (hset : AllSet bm gapStart run) :
    run ≤ bm.extendRun start stop gapStart fuel nextWi run ∧
      gapStart + bm.extendRun start stop gapStart fuel nextWi run ≤ stop ∧
      AllSet bm gapStart (bm.extendRun start stop gapStart fuel nextWi run) := by
  induction fuel generalizing nextWi run with
  | zero => exact ⟨Nat.le_refl _, hstop, hset⟩
  | succ fuel ih =>
    unfold extendRun
    by_cases hmore : gapStart + run < stop ∧ nextWi ≤ (stop - 1) / 64
    · rw [if_pos hmore]
      dsimp only
      have hword : ∀ b, b < 64 → (bm.maskedWord start stop nextWi).getLsbD b = true →
          bit bm (nextWi * 64 + b) = true ∧ nextWi * 64 + b < stop := by
        intro b hb hw
        rw [getLsbD_maskedWord hstart hfirst hmore.2 hb, Bool.and_eq_true, decide_eq_true_eq] at hw
        exact ⟨hw.1, hw.2.2⟩
      by_cases hall : bm.maskedWord start stop nextWi = BitVec.allOnes 64
      · -- a full word lies in the range as a whole
        have hones : ∀ b, b < 64 → bit bm (nextWi * 64 + b) = true ∧ nextWi * 64 + b < stop := by
          intro b hb
          apply hword b hb
          rw [hall, BitVec.getLsbD_allOnes]
          exact decide_eq_true hb
        have hfull := (hones 63 (by decide)).2
        have hset' : AllSet bm gapStart (run + 64) := by
          apply hset.append
          intro i hle hlt
          have hi := (hones (i - nextWi * 64) (by omega)).1
          rwa [show nextWi * 64 + (i - nextWi * 64) = i by omega] at hi
        rw [if_pos hall, show min (stop - (gapStart + run)) 64 = 64 by omega]
        by_cases hdone : run + 64 = stop - gapStart
        · rw [if_pos hdone]
          exact ⟨by omega, by omega, hset'⟩
        · rw [if_neg hdone]
          obtain ⟨hle, hle', hset''⟩ := @ih (nextWi + 1) (run + 64) (by omega)
            (by omega) (by omega) hset'
          exact ⟨by omega, hle', hset''⟩
      · rw [if_neg hall]
        by_cases hzero : bm.maskedWord start stop nextWi = 0
        · rw [if_pos hzero]
          exact ⟨Nat.le_refl _, hstop, hset⟩
        · rw [if_neg hzero]
          refine ⟨by omega, by omega, hset.append ?_⟩
          intro i hle hlt
          have hb : i - nextWi * 64 < 64 := by omega
          have hi := (hword (i - nextWi * 64) hb (getLsbD_of_lt_ctz_not hb (by omega))).1
          rwa [show nextWi * 64 + (i - nextWi * 64) = i by omega] at hi
    · rw [if_neg hmore]
      exact ⟨Nat.le_refl _, hstop, hset⟩

/-- **A search that finds nothing**: the range has no gap. -/
theorem searchNextGap_none (h : Sound bm) (hsearch : bm.searchNextGap start len = none) :
    ∀ i, start ≤ i → i < start + len → bit bm i = false := by
  intro i hle hlt
  unfold searchNextGap at hsearch
  by_cases hskip : len = 0 ∨ bm.empty
  · rcases hskip with hlen | hempty
    · omega
    · exact h.empty hempty i
  · rw [if_neg hskip] at hsearch
    dsimp only at hsearch
    obtain ⟨-, hnone⟩ := @nextWord_spec bm start (start + len)
      ((start + len - 1) / 64 - start / 64 + 1) _ (Nat.le_refl _) (by omega) (by omega)
    split at hsearch
    · next hword =>
      exact bit_of_maskedWord_eq_zero ⟨hle, hlt⟩ (hnone hword _ (by omega) (by omega))
    · split at hsearch
      · cases hsearch
      · split at hsearch <;> cases hsearch

/-- **A search that finds a gap**: no gap before it, and all of it is gap. -/
theorem searchNextGap_some {gapStart run : Nat}
    (hsearch : bm.searchNextGap start len = some (gapStart, run)) :
    start ≤ gapStart ∧ 0 < run ∧ gapStart + run ≤ start + len ∧
      (∀ i, start ≤ i → i < gapStart → bit bm i = false) ∧ AllSet bm gapStart run := by
  unfold searchNextGap at hsearch
  by_cases hskip : len = 0 ∨ bm.empty
  · rw [if_pos hskip] at hsearch
    cases hsearch
  rw [if_neg hskip] at hsearch
  have hlen : len ≠ 0 := fun hzero => hskip (Or.inl hzero)
  dsimp only at hsearch
  obtain ⟨hsome, -⟩ := @nextWord_spec bm start (start + len)
    ((start + len - 1) / 64 - start / 64 + 1) _ (Nat.le_refl _) (by omega) (by omega)
  split at hsearch
  · cases hsearch
  next wi hword =>
  obtain ⟨hwi, hlast, hne, hbefore⟩ := hsome wi hword
  have htz : (bm.maskedWord start (start + len) wi).ctz.toNat < 64 := by
    have hlt := BitVec.ctz_lt_iff_ne_zero.mpr hne
    rw [BitVec.lt_def] at hlt
    exact hlt
  have hfirstBit := BitVec.getLsbD_true_ctz_of_ne_zero hne
  have hlower := fun b (hb : b < (bm.maskedWord start (start + len) wi).ctz.toNat) =>
    BitVec.getLsbD_false_of_lt_ctz hb
  have hones := fun b hb => getLsbD_of_lt_ctz_not
    (w := bm.maskedWord start (start + len) wi >>> (bm.maskedWord start (start + len) wi).ctz.toNat)
    (b := b) hb
  have hmask := fun b hb => @getLsbD_maskedWord bm start (start + len) wi b (by omega)
    hwi hlast hb
  generalize hw : bm.maskedWord start (start + len) wi = w at hsearch htz hfirstBit hlower hones hmask
  generalize hz : w.ctz.toNat = tz at hsearch htz hfirstBit hlower hones
  generalize ho : (~~~(w >>> tz)).ctz.toNat = ones at hsearch hones
  rw [hmask tz htz, Bool.and_eq_true, decide_eq_true_eq] at hfirstBit
  obtain ⟨hfound, hin, hin'⟩ := hfirstBit
  -- before the first set bit of the word, and in the words before it, nothing is set
  have hnone : ∀ i, start ≤ i → i < wi * 64 + tz → bit bm i = false := by
    intro i hle hlt
    by_cases hearlier : i / 64 < wi
    · exact bit_of_maskedWord_eq_zero ⟨hle, by omega⟩ (hbefore _ (by omega) hearlier)
    · have hb : i - wi * 64 < tz := by omega
      have hi := hlower (i - wi * 64) hb
      rw [hmask _ (by omega), show wi * 64 + (i - wi * 64) = i by omega,
        decide_eq_true ⟨hle, by omega⟩, Bool.and_true] at hi
      exact hi
  have hset : AllSet bm (wi * 64 + tz) (min (min ones (64 - tz)) (start + len - (wi * 64 + tz))) := by
    intro i hle hlt
    have hi := hones (i - (wi * 64 + tz)) (by omega) (by omega)
    rw [BitVec.getLsbD_ushiftRight, hmask _ (by omega), Bool.and_eq_true] at hi
    rw [← hi.1]
    congr 1
    omega
  have hpos : 0 < ones := by
    rw [← ho]
    apply ctz_not_pos
    rw [BitVec.getLsbD_ushiftRight, Nat.add_zero, hmask tz htz, hfound, decide_eq_true ⟨hin, hin'⟩,
      Bool.and_self]
  split at hsearch
  · next htake =>
    simp only [Option.some.injEq, Prod.mk.injEq] at hsearch
    obtain ⟨rfl, rfl⟩ := hsearch
    exact ⟨hin, by omega, by omega, hnone, hset⟩
  · split at hsearch
    · simp only [Option.some.injEq, Prod.mk.injEq] at hsearch
      obtain ⟨rfl, rfl⟩ := hsearch
      exact ⟨hin, by omega, by omega, hnone, hset⟩
    · simp only [Option.some.injEq, Prod.mk.injEq] at hsearch
      obtain ⟨rfl, rfl⟩ := hsearch
      obtain ⟨hle, hle', hset'⟩ := @extendRun_spec bm start (start + len)
        (wi * 64 + tz) ((start + len - 1) / 64 - wi) (wi + 1) _ (by omega) (by omega) (by omega) (by omega) hset
      exact ⟨hin, by omega, hle', hnone, hset'⟩

end Catplay.Analysis.Ring

/-!
## The mirrored storage of the ring

The slice of the storage holds every cell twice, a capacity apart (`Mirrored`). A write of at
most a capacity of samples, with the copy that follows it, keeps the two halves alike and
changes the written cells only (`mirrored_store`).
-/

namespace Catplay.Analysis.Ring

open Catplay.Model.Ring

variable {T : Type}

variable {src pages : List T} {cap head : Nat}

theorem length_copyFromSlice {dst : List T} {start : Nat}
    (hfits : start + src.length ≤ dst.length) :
    (copyFromSlice dst start src).length = dst.length := by
  unfold copyFromSlice
  simp only [List.length_append, List.length_take, List.length_drop]
  omega

/-- A copy changes the cells that it covers. -/
theorem getElem?_copyFromSlice {dst : List T} {start : Nat}
    (hfits : start + src.length ≤ dst.length) (i : Nat) :
    (copyFromSlice dst start src)[i]? =
      if start ≤ i ∧ i < start + src.length then src[i - start]? else dst[i]? := by
  have htake : (dst.take start).length = start := by
    rw [List.length_take]
    omega
  unfold copyFromSlice
  by_cases hin : start ≤ i ∧ i < start + src.length
  · rw [if_pos hin, List.append_assoc, List.getElem?_append_right (by omega), htake,
      List.getElem?_append_left (by omega)]
  · rw [if_neg hin]
    by_cases hbefore : i < start
    · rw [List.append_assoc, List.getElem?_append_left (by omega), List.getElem?_take,
        if_pos hbefore]
    · rw [List.getElem?_append_right (by rw [List.length_append]; omega), List.length_append,
        htake, List.getElem?_drop]
      congr 1
      omega

/-- A copy from one place of the list to another. -/
theorem getElem?_copyWithin {l : List T} {a b n : Nat} (ha : a + n ≤ l.length)
    (hb : b + n ≤ l.length) :
    (copyFromSlice l b ((l.drop a).take n)).length = l.length ∧
      ∀ i, (copyFromSlice l b ((l.drop a).take n))[i]? =
        if b ≤ i ∧ i < b + n then l[a + (i - b)]? else l[i]? := by
  have hsrc : ((l.drop a).take n).length = n := by
    rw [List.length_take, List.length_drop]
    omega
  have hfits : b + ((l.drop a).take n).length ≤ l.length := by omega
  refine ⟨length_copyFromSlice hfits, fun i => ?_⟩
  rw [getElem?_copyFromSlice hfits, hsrc]
  by_cases hin : b ≤ i ∧ i < b + n
  · rw [if_pos hin, if_pos hin, List.getElem?_take, if_pos (by omega), List.getElem?_drop]
  · rw [if_neg hin, if_neg hin]

/-- Both halves of the slice are alike. -/
structure Mirrored (storage : RingStorage T) (cap : Nat) : Prop where
  length : storage.asSlice.length = 2 * cap
  mirror : ∀ i, i < cap → storage.asSlice[i + cap]? = storage.asSlice[i]?

/-- A write with the copy that follows it. -/
def store (storage : RingStorage T) (cap head : Nat) (src : List T) : RingStorage T :=
  (storage.writeSlice head src).syncMirrorRange cap head src.length

/-- The cell after a write: a sample of it, or what was there. -/
def cellAfterWrite (storage : RingStorage T) (cap head : Nat) (src : List T) (i : Nat) : Option T :=
  if head ≤ i ∧ i < head + src.length then src[i - head]?
  else if i + cap < head + src.length then src[i + cap - head]?
  else storage.asSlice[i]?

theorem pages_length (h : Mirrored (.mirroredMmap pages) cap) : pages.length = cap := by
  have hlength := h.length
  unfold RingStorage.asSlice at hlength
  rw [List.length_append] at hlength
  omega

/-- The cells of a mapped ring, seen through both mappings. -/
theorem mapped_cells {i : Nat} (hlength : pages.length = cap)
    (hi : i < cap) : (pages ++ pages)[i]? = pages[i]? ∧ (pages ++ pages)[i + cap]? = pages[i]? := by
  constructor
  · exact List.getElem?_append_left (by omega)
  · rw [List.getElem?_append_right (by omega), hlength, Nat.add_sub_cancel]

/-- What is written behind the first mapping appears at its start. -/
theorem writeSlice_mmap (hpages : pages.length = cap)
    (hhead : head < cap) (hsrc : src.length ≤ cap) :
    ∃ pages', (RingStorage.mirroredMmap pages).writeSlice head src = .mirroredMmap pages' ∧
      pages'.length = cap ∧
      ∀ i, i < cap → pages'[i]? = cellAfterWrite (.mirroredMmap pages) cap head src i := by
  have hfirst : head + (src.take (pages.length - head)).length ≤ pages.length := by
    rw [List.length_take]
    omega
  have hfirstLength := length_copyFromSlice hfirst
  have hsecond : 0 + (src.drop (pages.length - head)).length ≤
      (copyFromSlice pages head (src.take (pages.length - head))).length := by
    rw [hfirstLength, List.length_drop]
    omega
  refine ⟨_, rfl, (length_copyFromSlice hsecond).trans (hfirstLength.trans hpages), fun i hi => ?_⟩
  obtain ⟨hold, -⟩ := mapped_cells hpages hi
  unfold cellAfterWrite RingStorage.asSlice
  dsimp only
  rw [hold, getElem?_copyFromSlice hsecond, getElem?_copyFromSlice hfirst, List.length_drop,
    List.length_take]
  by_cases hwrapped : i < src.length - (pages.length - head)
  · rw [if_pos (by omega), if_neg (by omega), if_pos (by omega), List.getElem?_drop]
    congr 1
    omega
  · rw [if_neg (by omega)]
    by_cases hin : head ≤ i ∧ i < head + src.length
    · rw [if_pos (by omega), if_pos hin, List.getElem?_take, if_pos (by omega)]
    · rw [if_neg (by omega), if_neg hin, if_neg (by omega)]

theorem store_mmap (h : Mirrored (.mirroredMmap pages) cap)
    (hhead : head < cap) (hsrc : src.length ≤ cap) :
    Mirrored (store (.mirroredMmap pages) cap head src) cap ∧
      ∀ i, i < cap → (store (.mirroredMmap pages) cap head src).asSlice[i]? =
        cellAfterWrite (.mirroredMmap pages) cap head src i := by
  obtain ⟨pages', hwrite, hlength, hcells⟩ := writeSlice_mmap (pages_length h) hhead hsrc
  unfold store
  rw [hwrite]
  refine ⟨⟨?_, fun i hi => ?_⟩, fun i hi => ?_⟩
  · show (pages' ++ pages').length = 2 * cap
    rw [List.length_append, hlength, Nat.two_mul]
  · obtain ⟨hlow, hhigh⟩ := mapped_cells hlength hi
    exact hhigh.trans hlow.symm
  · obtain ⟨hlow, -⟩ := mapped_cells hlength hi
    exact hlow.trans (hcells i hi)

/-- **The copy behind a write** takes the written cells from the half that the write went to. -/
theorem sync_vec {ring : List T} {n : Nat} (hring : ring.length = 2 * cap)
    (hhead : head < cap) (hn : n ≤ cap) :
    ∃ ring', (RingStorage.mirroredVec ring).syncMirrorRange cap head n = .mirroredVec ring' ∧
      ring'.length = 2 * cap ∧ ∀ i, i < cap →
        ring'[i]? = (if i + cap < head + n then ring[i + cap]? else ring[i]?) ∧
          ring'[i + cap]? = if head ≤ i ∧ i < head + n then ring[i]? else ring[i + cap]? := by
  -- the copy of the lower half, then the copy of the upper half
  have hfirst : ∃ ring₁, (if min (head + n) cap > head then
        copyFromSlice ring (cap + head) ((ring.drop head).take (min (head + n) cap - head))
      else ring) = ring₁ ∧ ring₁.length = 2 * cap ∧ ∀ i, ring₁[i]? =
        if cap + head ≤ i ∧ i < cap + min (head + n) cap then ring[i - cap]? else ring[i]? := by
    by_cases hpos : min (head + n) cap > head
    · obtain ⟨hlength, hcells⟩ := @getElem?_copyWithin _ ring head (cap + head)
        (min (head + n) cap - head) (by omega) (by omega)
      refine ⟨_, if_pos hpos, hlength.trans hring, fun i => ?_⟩
      rw [hcells]
      by_cases hin : cap + head ≤ i ∧ i < cap + min (head + n) cap
      · rw [if_pos (by omega), if_pos hin]
        congr 1
        omega
      · rw [if_neg (by omega), if_neg hin]
    · refine ⟨_, if_neg hpos, hring, fun i => ?_⟩
      rw [if_neg (by omega)]
  obtain ⟨ring₁, hring₁, hlength₁, hcells₁⟩ := hfirst
  have hsync : (RingStorage.mirroredVec ring).syncMirrorRange cap head n = .mirroredVec
      (if head + n > cap then
        copyFromSlice ring₁ 0 ((ring₁.drop cap).take (head + n - cap)) else ring₁) := by
    unfold RingStorage.syncMirrorRange
    dsimp only
    rw [show min head cap = head by omega, show max head cap = cap by omega, hring₁,
      show min (head + n) (2 * cap) = head + n by omega, Nat.sub_self]
  by_cases hwraps : head + n > cap
  · rw [if_pos hwraps] at hsync
    obtain ⟨hlength, hcells⟩ := @getElem?_copyWithin _ ring₁ cap 0 (head + n - cap)
      (by omega) (by omega)
    refine ⟨_, hsync, hlength.trans hlength₁, fun i hi => ⟨?_, ?_⟩⟩
    · rw [hcells]
      by_cases hlow : i + cap < head + n
      · rw [if_pos (by omega), if_pos hlow, hcells₁, if_neg (by omega)]
        congr 1
        omega
      · rw [if_neg (by omega), if_neg hlow, hcells₁, if_neg (by omega)]
    · rw [hcells, if_neg (by omega), hcells₁]
      by_cases hin : head ≤ i ∧ i < head + n
      · rw [if_pos (by omega), if_pos hin, Nat.add_sub_cancel]
      · rw [if_neg (by omega), if_neg hin]
  · rw [if_neg hwraps] at hsync
    refine ⟨ring₁, hsync, hlength₁, fun i hi => ⟨?_, ?_⟩⟩
    · rw [hcells₁, if_neg (by omega), if_neg (by omega)]
    · rw [hcells₁]
      by_cases hin : head ≤ i ∧ i < head + n
      · rw [if_pos (by omega), if_pos hin, Nat.add_sub_cancel]
      · rw [if_neg (by omega), if_neg hin]

theorem store_vec {ring : List T} (h : Mirrored (.mirroredVec ring) cap)
    (hhead : head < cap) (hsrc : src.length ≤ cap) :
    Mirrored (store (.mirroredVec ring) cap head src) cap ∧
      ∀ i, i < cap → (store (.mirroredVec ring) cap head src).asSlice[i]? =
        cellAfterWrite (.mirroredVec ring) cap head src i := by
  have hring : ring.length = 2 * cap := h.length
  have hmirror : ∀ i, i < cap → ring[i + cap]? = ring[i]? := h.mirror
  have hfits : head + src.length ≤ ring.length := by omega
  have hwritten := getElem?_copyFromSlice hfits
  obtain ⟨ring', hsync, hlength, hcells⟩ :=
    sync_vec ((length_copyFromSlice hfits).trans hring) hhead hsrc
  have hstore : store (.mirroredVec ring) cap head src = .mirroredVec ring' := hsync
  have hboth : ∀ i, i < cap → ring'[i]? = cellAfterWrite (.mirroredVec ring) cap head src i ∧
      ring'[i + cap]? = cellAfterWrite (.mirroredVec ring) cap head src i := by
    intro i hi
    obtain ⟨hlow, hhigh⟩ := hcells i hi
    unfold cellAfterWrite RingStorage.asSlice
    dsimp only
    rw [hlow, hhigh, hwritten, hwritten]
    by_cases hin : head ≤ i ∧ i < head + src.length
    · rw [if_neg (by omega), if_pos hin, if_pos hin, if_pos hin]
      exact ⟨rfl, rfl⟩
    · rw [if_neg hin, if_neg hin, if_neg hin]
      by_cases hwrapped : i + cap < head + src.length
      · rw [if_pos hwrapped, if_pos (by omega), if_pos hwrapped]
        exact ⟨rfl, rfl⟩
      · have hhigher : ¬(head ≤ i + cap ∧ i + cap < head + src.length) := by omega
        rw [if_neg hwrapped, if_neg hhigher, if_neg hwrapped]
        exact ⟨rfl, hmirror i hi⟩
  rw [hstore]
  exact ⟨⟨hlength, fun i hi => (hboth i hi).2.trans (hboth i hi).1.symm⟩, fun i hi => (hboth i hi).1⟩

/-- **A write and the copy behind it** keep the halves alike and change the written cells. -/
theorem mirrored_store {storage : RingStorage T}
    (h : Mirrored storage cap) (hhead : head < cap) (hsrc : src.length ≤ cap) :
    Mirrored (store storage cap head src) cap ∧
      ∀ i, i < cap → (store storage cap head src).asSlice[i]? =
        cellAfterWrite storage cap head src i := by
  cases storage with
  | mirroredVec ring => exact store_vec h hhead hsrc
  | mirroredMmap pages => exact store_mmap h hhead hsrc

theorem mirrored_new [Inhabited T] (mapped : Bool) (cap : Nat) :
    Mirrored (RingStorage.new (T := T) mapped cap) cap := by
  cases mapped with
  | false =>
    refine ⟨?_, fun i hi => ?_⟩
    · show (List.replicate (cap * 2) default).length = 2 * cap
      rw [List.length_replicate, Nat.mul_comm]
    · show (List.replicate (cap * 2) default)[i + cap]? = (List.replicate (cap * 2) default)[i]?
      rw [List.getElem?_replicate, List.getElem?_replicate, if_pos (by omega), if_pos (by omega)]
  | true =>
    have hlength : (List.replicate cap (default : T)).length = cap := List.length_replicate
    refine ⟨?_, fun i hi => ?_⟩
    · show (List.replicate cap default ++ List.replicate cap default).length = 2 * cap
      rw [List.length_append, hlength, Nat.two_mul]
    · obtain ⟨hlow, hhigh⟩ := mapped_cells hlength hi
      exact hhigh.trans hlow.symm

end Catplay.Analysis.Ring
