import Catplay.Analysis.Ring.Timeline

/-!
# Samples behind the write head

A writer that is handed the slice may leave samples in it that it does not commit. They stand
where the oldest samples of the ring were. `Holds` says what the ring still holds then: of a
timeline without holes, all positions of the last `capacity` but the oldest `scribbled` ones.
A commit takes the samples that were written over into the timeline (`Holds.writeSamples`).
-/

set_option autoImplicit false

namespace Catplay.Analysis.Ring

open Catplay.Model.Ring Catplay.Model.Ring.RingBuffer

variable {T : Type}

/-! ## The slice -/

/-- Both halves of the slice have a value at a ring position. -/
def Both (storage : RingStorage T) (cap i : Nat) (value : Option T) : Prop :=
  storage.asSlice[i]? = value ∧ storage.asSlice[i + cap]? = value

variable {cap count scribbled : Nat} {src cells : List T} {r : RingBuffer T}

/-- The two mappings of a mapped ring are alike. -/
theorem mirrored_of_length {pages : List T}
    (hlength : (RingStorage.mirroredMmap pages).asSlice.length = 2 * cap) :
    Mirrored (.mirroredMmap pages) cap := by
  have hpages : pages.length = cap := by
    have hslice : (pages ++ pages).length = 2 * cap := hlength
    rw [List.length_append] at hslice
    omega
  refine ⟨hlength, fun i hi => ?_⟩
  obtain ⟨hlow, hhigh⟩ := mapped_cells hpages hi
  exact hhigh.trans hlow.symm

/-- A write that fits behind the head of the slice. -/
theorem writeSlice_cells {storage : RingStorage T} {head : Nat}
    (hlength : storage.asSlice.length = 2 * cap) (hhead : head < cap) (hsrc : src.length ≤ cap) :
    (storage.writeSlice head src).asSlice.length = 2 * cap ∧
      (∀ j, j < src.length → (storage.writeSlice head src).asSlice[head + j]? = src[j]?) ∧
      ∀ i, i < cap → ¬InRegion cap head src.length i →
        (storage.writeSlice head src).asSlice[i]? = storage.asSlice[i]? ∧
          (storage.writeSlice head src).asSlice[i + cap]? = storage.asSlice[i + cap]? := by
  unfold InRegion
  cases storage with
  | mirroredVec ring =>
    have hring : ring.length = 2 * cap := hlength
    have hfits : head + src.length ≤ ring.length := by omega
    have hcells := getElem?_copyFromSlice hfits
    show (copyFromSlice ring head src).length = 2 * cap ∧
      (∀ j, j < src.length → (copyFromSlice ring head src)[head + j]? = src[j]?) ∧
        ∀ i, i < cap → ¬((head ≤ i ∧ i < head + src.length) ∨ i + cap < head + src.length) →
          (copyFromSlice ring head src)[i]? = ring[i]? ∧
            (copyFromSlice ring head src)[i + cap]? = ring[i + cap]?
    refine ⟨(length_copyFromSlice hfits).trans hring, fun j hj => ?_, fun i hi houtside => ?_⟩
    · rw [hcells, if_pos (by omega), Nat.add_sub_cancel_left]
    · rw [hcells, hcells, if_neg (by omega), if_neg (by omega)]
      exact ⟨rfl, rfl⟩
  | mirroredMmap pages =>
    obtain ⟨hmirrored, hcells⟩ := store_mmap (mirrored_of_length hlength) hhead hsrc
    have hstore : store (.mirroredMmap pages) cap head src =
        (RingStorage.mirroredMmap pages).writeSlice head src := rfl
    rw [hstore] at hmirrored hcells
    refine ⟨hmirrored.length, fun j hj => ?_, fun i hi houtside => ?_⟩
    · by_cases hlow : head + j < cap
      · rw [hcells _ hlow]
        unfold cellAfterWrite
        rw [if_pos (by omega), Nat.add_sub_cancel_left]
      · obtain ⟨i, hi⟩ : ∃ i, head + j = i + cap := ⟨head + j - cap, by omega⟩
        rw [hi, hmirrored.mirror i (by omega), hcells i (by omega)]
        unfold cellAfterWrite
        rw [if_neg (by omega), if_pos (by omega)]
        congr 1
        omega
    · rw [hmirrored.mirror i hi, hcells i hi, (mirrored_of_length hlength).mirror i hi]
      unfold cellAfterWrite
      rw [if_neg (by omega), if_neg (by omega)]
      exact ⟨rfl, rfl⟩

/-- **The copy between the halves**: both have what was written to the slice. -/
theorem syncMirrorRange_cells {storage : RingStorage T} {head : Nat}
    (hlength : storage.asSlice.length = 2 * cap) (hhead : head < cap) (hcount : count ≤ cap) :
    (storage.syncMirrorRange cap head count).asSlice.length = 2 * cap ∧
      (∀ j, j < count →
        Both (storage.syncMirrorRange cap head count) cap
          (if head + j < cap then head + j else head + j - cap) (storage.asSlice[head + j]?)) ∧
      ∀ i, i < cap → ¬InRegion cap head count i →
        (storage.syncMirrorRange cap head count).asSlice[i]? = storage.asSlice[i]? ∧
          (storage.syncMirrorRange cap head count).asSlice[i + cap]? =
            storage.asSlice[i + cap]? := by
  unfold InRegion Both
  cases storage with
  | mirroredMmap pages =>
    have hmirrored := mirrored_of_length hlength
    show (pages ++ pages).length = 2 * cap ∧ _
    refine ⟨hlength, fun j hj => ?_, fun i hi _ => ⟨rfl, rfl⟩⟩
    by_cases hlow : head + j < cap
    · rw [if_pos hlow]
      exact ⟨rfl, hmirrored.mirror _ hlow⟩
    · obtain ⟨i, hi⟩ : ∃ i, head + j = i + cap := ⟨head + j - cap, by omega⟩
      rw [if_neg hlow, hi, Nat.add_sub_cancel]
      exact ⟨(hmirrored.mirror i (by omega)).symm, rfl⟩
  | mirroredVec ring =>
    have hring : ring.length = 2 * cap := hlength
    obtain ⟨ring', hsync, hfinal, hcells⟩ := sync_vec hring hhead hcount
    rw [hsync]
    refine ⟨hfinal, fun j hj => ?_, fun i hi houtside => ?_⟩
    · show ring'[_]? = ring[head + j]? ∧ ring'[_]? = ring[head + j]?
      by_cases hlow : head + j < cap
      · obtain ⟨hfirst, hsecond⟩ := hcells (head + j) hlow
        rw [if_pos hlow, hfirst, hsecond, if_neg (by omega), if_pos (by omega)]
        exact ⟨rfl, rfl⟩
      · obtain ⟨i, hi⟩ : ∃ i, head + j = i + cap := ⟨head + j - cap, by omega⟩
        obtain ⟨hfirst, hsecond⟩ := hcells i (by omega)
        rw [if_neg hlow, hi, Nat.add_sub_cancel, hfirst, hsecond, if_pos (by omega),
          if_neg (by omega)]
        exact ⟨rfl, rfl⟩
    · obtain ⟨hfirst, hsecond⟩ := hcells i hi
      show ring'[i]? = ring[i]? ∧ ring'[i + cap]? = ring[i + cap]?
      rw [hfirst, hsecond, if_neg (by omega), if_neg (by omega)]
      exact ⟨rfl, rfl⟩

/-! ## The ring -/

/-- **A timeline without holes.** The ring holds its last `capacity` samples, up to the ones that
were written over. -/
structure Holds (r : RingBuffer T) (cells : List T) (scribbled : Nat) : Prop where
  pow : ∃ k, r.capacity = 2 ^ k
  mask : r.mask = r.capacity - 1
  length : r.ring.asSlice.length = 2 * r.capacity
  noGaps : r.gaps.empty = true
  written : r.writeHead = cells.length
  cells : ∀ p, p < cells.length → cells.length + scribbled ≤ p + r.capacity →
    Both r.ring r.capacity (p % r.capacity) cells[p]?

theorem Holds.capacity_pos (h : Holds r cells scribbled) : 0 < r.capacity := by
  obtain ⟨k, hk⟩ := h.pow
  rw [hk]
  exact Nat.two_pow_pos k

theorem Holds.ringIndex
    (h : Holds r cells scribbled) (p : Nat) : r.logicalToRingIndex p = p % r.capacity := by
  obtain ⟨k, hk⟩ := h.pow
  unfold RingBuffer.logicalToRingIndex
  rw [h.mask, hk, Nat.and_two_pow_sub_one_eq_mod]

/-- An older position is outside the region of a write that ends before it comes around. -/
theorem older_outside {len p : Nat} (hold : p < len)
    (hfits : len + count ≤ p + cap) : ¬InRegion cap (len % cap) count (p % cap) := by
  have hround : p % cap = (len + (p + cap - len)) % cap := by
    rw [show len + (p + cap - len) = p + cap by omega, Nat.add_mod_right]
  rw [hround, inRegion_iff (by omega)]
  omega

/-- **Scribbling.** What is written behind the head takes the place of the oldest samples. -/
theorem Holds.writeInto (h : Holds r cells scribbled) (hsrc : src.length ≤ r.capacity) :
    Holds (r.writeInto src) cells (max scribbled src.length) := by
  have hcap := h.capacity_pos
  obtain ⟨hlength, -, houtside⟩ := writeSlice_cells h.length
    (Nat.mod_lt r.writeHead hcap) hsrc
  rw [← h.ringIndex] at hlength houtside
  refine ⟨h.pow, h.mask, hlength, h.noGaps, h.written, fun p hp hwindow => ?_⟩
  have hwindow' : cells.length + max scribbled src.length ≤ p + r.capacity := hwindow
  obtain ⟨hlow, hhigh⟩ := h.cells p hp (by omega)
  have hother := older_outside hp (show cells.length + src.length ≤ p + r.capacity by omega)
  rw [← h.written, ← h.ringIndex] at hother
  obtain ⟨hlow', hhigh'⟩ := houtside _ (Nat.mod_lt p hcap) hother
  exact ⟨hlow'.trans hlow, hhigh'.trans hhigh⟩

/-- **Committing.** The samples that were written become the next ones of the timeline. -/
theorem Holds.writeSamples
    (h : Holds r cells scribbled) (src added : List T) (hnonempty : 0 < added.length)
    (hsrc : min added.length r.capacity ≤ src.length) (hfits : src.length ≤ r.capacity)
    (hroom : r.writeHead + added.length < 2 ^ 64)
    (hlands : ∀ j, j < added.length → added.length ≤ j + r.capacity →
      added[j]? = src[j % r.capacity]?) :
    Holds ((r.writeInto src).writeCommitAdvance (min added.length r.capacity) added.length)
      (cells ++ added) (max scribbled src.length - min added.length r.capacity) := by
  have hcap := h.capacity_pos
  have hhead : r.writeHead % r.capacity < r.capacity := Nat.mod_lt _ hcap
  obtain ⟨hlength, hsamples, houtside⟩ := writeSlice_cells h.length hhead hfits
  obtain ⟨hlength', hcopied, hsame⟩ := syncMirrorRange_cells hlength hhead
    (Nat.min_le_right added.length r.capacity)
  have hring : ((r.writeInto src).writeCommitAdvance (min added.length r.capacity)
      added.length).ring = (r.ring.writeSlice (r.writeHead % r.capacity) src).syncMirrorRange
        r.capacity (r.writeHead % r.capacity) (min added.length r.capacity) := by
    have hindex := h.ringIndex r.writeHead
    unfold RingBuffer.writeCommitAdvance RingBuffer.writeInto
    dsimp only
    rw [if_pos (show min added.length r.capacity > 0 by omega)]
    unfold RingBuffer.logicalToRingIndex at hindex ⊢
    dsimp only
    rw [hindex]
  generalize hstored : (r.ring.writeSlice (r.writeHead % r.capacity) src).syncMirrorRange
    r.capacity (r.writeHead % r.capacity) (min added.length r.capacity) = stored
    at hlength' hcopied hsame hring
  refine ⟨h.pow, h.mask, ?_, ?_, ?_, ?_⟩
  · rw [hring]
    exact hlength'
  · show ((r.gaps.unmarkRegion _ _).unmarkRegion _ _).empty = true
    have hunmarked : ∀ start len, r.gaps.unmarkRegion start len = r.gaps := by
      intro start len
      unfold Bitmap.unmarkRegion
      rw [if_pos (Or.inr h.noGaps)]
    rw [hunmarked, hunmarked]
    exact h.noGaps
  · show fetchAdd r.writeHead added.length = (cells ++ added).length
    unfold fetchAdd
    rw [Nat.mod_eq_of_lt hroom, h.written, List.length_append]
  · intro p hp hwindow
    rw [hring]
    show Both stored r.capacity (p % r.capacity) (cells ++ added)[p]?
    rw [List.length_append] at hp hwindow
    have hwindow' : cells.length + added.length +
      (max scribbled src.length - min added.length r.capacity) ≤ p + r.capacity := hwindow
    by_cases hold : p < cells.length
    · rw [List.getElem?_append_left hold]
      obtain ⟨hlow, hhigh⟩ := h.cells p hold (by omega)
      have hother := older_outside hold
        (show cells.length + src.length ≤ p + r.capacity by omega)
      have hother' := older_outside hold
        (show cells.length + min added.length r.capacity ≤ p + r.capacity by omega)
      rw [← h.written] at hother hother'
      obtain ⟨hlow₁, hhigh₁⟩ := houtside _ (Nat.mod_lt p hcap) hother
      obtain ⟨hlow₂, hhigh₂⟩ := hsame _ (Nat.mod_lt p hcap) hother'
      exact ⟨hlow₂.trans (hlow₁.trans hlow), hhigh₂.trans (hhigh₁.trans hhigh)⟩
    · obtain ⟨j, rfl⟩ : ∃ j, p = cells.length + j := ⟨p - cells.length, by omega⟩
      have hmod := Nat.mod_lt j hcap
      have hle := Nat.mod_le j r.capacity
      have hshort : j % r.capacity < min added.length r.capacity := by omega
      have hround : (cells.length + j) % r.capacity =
          if r.writeHead % r.capacity + j % r.capacity < r.capacity then
            r.writeHead % r.capacity + j % r.capacity
          else r.writeHead % r.capacity + j % r.capacity - r.capacity := by
        rw [h.written, ← mod_add_eq cells.length r.capacity _ hmod, Nat.add_mod_mod]
      rw [List.getElem?_append_right (by omega), Nat.add_sub_cancel_left, hround,
        hlands j (by omega) (by omega), ← hsamples _ (by omega)]
      exact hcopied _ hshort

/-- A commit of no more samples than were written. -/
theorem Holds.writeCommit (h : Holds r cells scribbled) (hpositive : 0 < count)
    (hcount : count ≤ src.length) (hfits : src.length ≤ r.capacity)
    (hroom : r.writeHead + count < 2 ^ 64) :
    Holds ((r.writeInto src).writeCommit count) (cells ++ src.take count)
      (max scribbled src.length - count) := by
  have htake : (src.take count).length = count := by
    rw [List.length_take]
    omega
  have hwrite := h.writeSamples src (src.take count) (by omega) (by omega) hfits (by omega) ?_
  · rw [htake, Nat.min_eq_left (by omega)] at hwrite
    exact hwrite
  · intro j hj _
    rw [htake] at hj
    rw [List.getElem?_take, if_pos hj, Nat.mod_eq_of_lt (by omega)]

theorem Holds.writeDefault [Inhabited T]
    (h : Holds r cells scribbled) (count : Nat) (hroom : r.writeHead + count < 2 ^ 64) :
    ∃ scribbled', Holds (r.writeDefault count) (cells ++ List.replicate count default) scribbled' ∧
      scribbled' ≤ scribbled := by
  have hcap := h.capacity_pos
  unfold RingBuffer.writeDefault
  by_cases hempty : count = 0
  · rw [if_pos hempty, hempty, List.replicate_zero, List.append_nil]
    exact ⟨scribbled, h, Nat.le_refl _⟩
  · rw [if_neg hempty]
    have hadded : (List.replicate count (default : T)).length = count := List.length_replicate
    have hsrc : (List.replicate (min count r.capacity) (default : T)).length =
        min count r.capacity := List.length_replicate
    have hwrite := h.writeSamples (List.replicate (min count r.capacity) default)
      (List.replicate count default) (by omega) (by omega) (by omega) (by omega) ?_
    · rw [hadded] at hwrite
      exact ⟨_, hwrite, by omega⟩
    · intro j hj hwindow
      rw [hadded] at hj hwindow
      have hmod := Nat.mod_lt j hcap
      have hle := Nat.mod_le j r.capacity
      rw [List.getElem?_replicate, List.getElem?_replicate, if_pos hj, if_pos (by omega)]

/-- A write that lands in place. -/
theorem Holds.write (h : Holds r cells 0) {input : List T}
    (hroom : r.writeHead + input.length < 2 ^ 64) (hlands : LandsInPlace r.capacity input) :
    Holds (r.write input).1 (cells ++ input) 0 := by
  have hcap := h.capacity_pos
  unfold RingBuffer.write
  dsimp only
  by_cases hempty : input.length = 0
  · rw [if_pos hempty, List.length_eq_zero_iff.mp hempty, List.append_nil]
    exact h
  · rw [if_neg hempty]
    have hkept : (kept r.capacity input).length = min input.length r.capacity := by
      unfold kept
      rw [List.length_drop]
      omega
    have hwrite := h.writeSamples (kept r.capacity input) input (by omega) (by omega) (by omega)
      hroom ?_
    · rw [hkept, Nat.zero_max, Nat.sub_self] at hwrite
      exact hwrite
    · intro j hj hwindow
      by_cases hshort : input.length ≤ r.capacity
      · unfold kept
        rw [Nat.mod_eq_of_lt (by omega), show input.length - min input.length r.capacity = 0
          by omega, List.drop_zero]
      · obtain hfits | hrotated := hlands
        · omega
        · have hplace := hrotated (j + r.capacity - input.length) (by omega)
          rw [show input.length + (j + r.capacity - input.length) = j + r.capacity by omega,
            Nat.add_mod_right] at hplace
          rw [hplace]
          unfold kept
          rw [List.getElem?_drop, show input.length - min input.length r.capacity +
            (j + r.capacity - input.length) = j by omega]

/-- Reading changes nothing of it. -/
theorem Holds.same {r' : RingBuffer T}
    (h : Holds r cells scribbled) (hsame : SameSamples r r') : Holds r' cells scribbled := by
  refine ⟨?_, ?_, ?_, ?_, ?_, fun p hp hwindow => ?_⟩
  · rw [hsame.capacity]
    exact h.pow
  · rw [hsame.mask, hsame.capacity]
    exact h.mask
  · rw [hsame.storage, hsame.capacity]
    exact h.length
  · rw [hsame.gaps]
    exact h.noGaps
  · rw [hsame.writeHead]
    exact h.written
  · rw [hsame.capacity] at hwindow
    rw [hsame.storage, hsame.capacity]
    exact h.cells p hp hwindow

/-- A new ring holds the empty timeline. -/
theorem holds_new [Inhabited T] (mapped : Bool) (size : Nat) :
    Holds (newUnsplit mapped size : RingBuffer T) [] 0 := by
  obtain ⟨k, hk⟩ := Nat.isPowerOfTwo_nextPowerOfTwo size
  have hpos := Nat.two_pow_pos k
  refine ⟨⟨k, ?_⟩, rfl, (mirrored_new _ _).length, rfl, rfl, fun p hp => ?_⟩
  · show max size.nextPowerOfTwo 1 = 2 ^ k
    omega
  · cases hp

end Catplay.Analysis.Ring
