import Catplay.Analysis.Ring.Twins

/-!
# The heads as counters that wrap

The heads of the ring are `usize`, which has 32 bits on some targets. The calls are stated here for
heads counted in any way (`Counter`): by so many bits, or without a bound. A ring with narrow heads
keeps the same samples and gaps as the one whose heads never wrap, but it compares the heads with
saturating subtractions. Its reads are those of the unbounded ring in the states in which both heads
have wrapped equally often, and in no others (`counters_iff`, `one_head_wrapped`).
-/

set_option autoImplicit false

namespace Catplay.Analysis.Ring

open Catplay.Library.Run Catplay.Model.Ring Catplay.Model.Ring.RingBuffer

variable {T : Type}

/-! ## Counters -/

/-- What counts the positions: a `usize` of so many bits, or a number. -/
inductive Counter
  | usize (bits : Nat)
  | unbounded
  deriving DecidableEq, Repr

namespace Counter

/-- `fetch_add`. -/
def fetchAdd : Counter → Nat → Nat → Nat
  | usize bits, head, count => (head + count) % 2 ^ bits
  | unbounded, head, count => head + count

/-! ### The calls that move a head -/

def writeCommitAdvance (c : Counter) (self : RingBuffer T) (writtenPhys advance : Nat) :
    RingBuffer T :=
  { self.writeCommitAdvance writtenPhys advance with
    writeHead := c.fetchAdd self.writeHead advance }

def write (c : Counter) (self : RingBuffer T) (input : List T) : RingBuffer T :=
  let cap := self.capacity
  let total := input.length
  if total = 0 then self
  else
    let phys := min total cap
    let src := input.drop (total - phys)
    c.writeCommitAdvance (self.writeInto src) phys total

def writeDefault [Inhabited T] (c : Counter) (self : RingBuffer T) (count : Nat) : RingBuffer T :=
  if count = 0 then self
  else
    let writtenPhys := min count self.capacity
    c.writeCommitAdvance (self.writeInto (List.replicate writtenPhys default)) writtenPhys count

def advanceTimeline (c : Counter) (self : RingBuffer T) (size : Nat) : RingBuffer T :=
  let cap := self.capacity
  if size = 0 then self
  else
    let mark := min size cap
    let start := self.logicalToRingIndex self.writeHead
    let firstLen := min (cap - start) mark
    let secondLen := mark - firstLen
    c.writeCommitAdvance { self with
      gaps := (self.gaps.markRegion start firstLen).markRegion 0 secondLen } 0 size

def readCommit (c : Counter) (self : RingBuffer T) (count : Nat) : RingBuffer T :=
  if count = 0 then self else { self with readHead := c.fetchAdd self.readHead count }

def takeSegments (c : Counter) (self : RingBuffer T) (requested : Nat) (emitUnderflow : Bool)
    (visits : Nat) : RingBuffer T :=
  c.readCommit self (self.visit visits (self.iterSegments requested emitUnderflow)).2.consumed

def read (c : Counter) (self : RingBuffer T) (out : List T) : RingBuffer T :=
  if out.length = 0 then self else c.takeSegments self out.length true (out.length + 1)

def perform [Inhabited T] (c : Counter) (r : RingBuffer T) : Op T → RingBuffer T
  | .write input => c.write r input
  | .writeDefault count => c.writeDefault r count
  | .advanceTimeline size => c.advanceTimeline r size
  | .takeSegments requested emitUnderflow visits =>
    c.takeSegments r requested emitUnderflow visits
  | .read out => c.read r out

def performCall [Inhabited T] (c : Counter) (r : RingBuffer T) : RingCall T → Option (RingBuffer T)
  | .op op => some (c.perform r op)
  | .writeSlice src => if src.length ≤ r.capacity then some (r.writeInto src) else none
  | .writeCommit written =>
    if written ≤ r.capacity then some (c.writeCommitAdvance r written written) else none
  | .readCommit count => some (c.readCommit r count)

end Counter

/-! ## The ring with narrow heads -/

/-- The capacity is a power of two that the heads can count. -/
structure Fits (w : Nat) (r : RingBuffer T) : Prop where
  pow : ∃ k, k ≤ w ∧ r.capacity = 2 ^ k
  mask : r.mask = r.capacity - 1

/-- The same ring, its heads counted by `w` bits. -/
def narrow (w : Nat) (r : RingBuffer T) : RingBuffer T :=
  { r with
    writeHead := r.writeHead % 2 ^ w
    readHead := r.readHead % 2 ^ w }

variable {r r' : RingBuffer T} {w e : Nat} {c : Counter} {call : RingCall T}
  {calls : List (RingCall T)}

theorem Fits.dvd (h : Fits w r) : r.capacity ∣ 2 ^ w := by
  obtain ⟨k, hk, hcapacity⟩ := h.pow
  rw [hcapacity]
  exact Nat.pow_dvd_pow 2 hk

theorem Fits.ringIndex (h : Fits w r) (p : Nat) :
    r.logicalToRingIndex p = p % r.capacity := by
  obtain ⟨k, -, hcapacity⟩ := h.pow
  unfold RingBuffer.logicalToRingIndex
  rw [h.mask, hcapacity, Nat.and_two_pow_sub_one_eq_mod]

theorem Fits.index_mod (h : Fits w r) (p : Nat) :
    r.logicalToRingIndex (p % 2 ^ w) = r.logicalToRingIndex p := by
  rw [h.ringIndex, h.ringIndex, Nat.mod_mod_of_dvd p h.dvd]

theorem Fits.of_same (h : Fits w r)
    (hcapacity : r'.capacity = r.capacity) (hmask : r'.mask = r.mask) : Fits w r' := by
  refine ⟨?_, ?_⟩
  · rw [hcapacity]
    exact h.pow
  · rw [hmask, hcapacity, h.mask]

/-! ### Writing -/

theorem narrow_writeInto (h : Fits w r) (src : List T) :
    (narrow w r).writeInto src = narrow w (r.writeInto src) := by
  have hindex := h.index_mod r.writeHead
  unfold RingBuffer.writeInto narrow
  show ({ r with ring := r.ring.writeSlice (r.logicalToRingIndex (r.writeHead % 2 ^ w)) src
                 writeHead := _
                 readHead := _ } : RingBuffer T) = _
  rw [hindex]

theorem narrow_writeCommitAdvance (h : Fits w r) (writtenPhys advance : Nat) :
    (Counter.usize w).writeCommitAdvance (narrow w r) writtenPhys advance =
      narrow w (Counter.unbounded.writeCommitAdvance r writtenPhys advance) := by
  have hindex : (narrow w r).logicalToRingIndex (narrow w r).writeHead =
      r.logicalToRingIndex r.writeHead := h.index_mod r.writeHead
  have hcapacity : (narrow w r).capacity = r.capacity := rfl
  have hgaps : (narrow w r).gaps = r.gaps := rfl
  have hring : (narrow w r).ring = r.ring := rfl
  unfold Counter.writeCommitAdvance RingBuffer.writeCommitAdvance
  dsimp only
  rw [hindex, hcapacity, hgaps, hring]
  unfold narrow Counter.fetchAdd
  dsimp only
  rw [Nat.mod_add_mod]

theorem narrow_writing [Inhabited T] (h : Fits w r) :
    (∀ input, (Counter.usize w).write (narrow w r) input =
        narrow w (Counter.unbounded.write r input)) ∧
      (∀ count, (Counter.usize w).writeDefault (narrow w r) count =
        narrow w (Counter.unbounded.writeDefault r count)) ∧
      ∀ size, (Counter.usize w).advanceTimeline (narrow w r) size =
        narrow w (Counter.unbounded.advanceTimeline r size) := by
  have hcapacity : (narrow w r).capacity = r.capacity := rfl
  refine ⟨fun input => ?_, fun count => ?_, fun size => ?_⟩
  · unfold Counter.write
    dsimp only
    rw [hcapacity]
    split
    · rfl
    · rw [narrow_writeInto h]
      apply narrow_writeCommitAdvance
      exact h.of_same rfl rfl
  · unfold Counter.writeDefault
    rw [hcapacity]
    split
    · rfl
    · dsimp only
      rw [narrow_writeInto h]
      apply narrow_writeCommitAdvance
      exact h.of_same rfl rfl
  · have hindex : (narrow w r).logicalToRingIndex (narrow w r).writeHead =
        r.logicalToRingIndex r.writeHead := h.index_mod r.writeHead
    unfold Counter.advanceTimeline
    dsimp only
    rw [hindex, hcapacity]
    split
    · rfl
    · have hgaps : (narrow w r).gaps = r.gaps := rfl
      rw [hgaps]
      generalize Bitmap.markRegion _ 0 _ = gaps
      have hmarked : Fits w { r with gaps } := h.of_same rfl rfl
      exact narrow_writeCommitAdvance hmarked 0 size

/-! ### Reading -/

/-- An iterator that stands `e` positions further on. -/
def RingSegments.later (it : RingSegments) (e : Nat) : RingSegments :=
  { it with cursor := it.cursor + e }

theorem Fits.searchGapAbs_later (h : Fits w r) (he : r.capacity ∣ e) (start len : Nat) :
    r.searchGapAbs (start + e) len =
      (r.searchGapAbs start len).map fun gap => (gap.1 + e, gap.2) := by
  have hindex : r.logicalToRingIndex (start + e) = r.logicalToRingIndex start := by
    obtain ⟨n, rfl⟩ := he
    rw [h.ringIndex, h.ringIndex, Nat.add_mul_mod_self_left]
  unfold RingBuffer.searchGapAbs
  dsimp only
  rw [hindex]
  cases r.gaps.searchNextGap (r.logicalToRingIndex start)
      (min len (r.capacity - r.logicalToRingIndex start)) with
  | some gap =>
    obtain ⟨gapStart, gapLen⟩ := gap
    have hstart : start + e + (gapStart - r.logicalToRingIndex start) =
        start + (gapStart - r.logicalToRingIndex start) + e := by omega
    dsimp only
    rw [hstart]
    split
    · split <;> rfl
    · rfl
  | none =>
    dsimp only
    split
    · cases r.gaps.searchNextGap 0
          (len - min len (r.capacity - r.logicalToRingIndex start)) with
      | some gap =>
        obtain ⟨gapStart, gapLen⟩ := gap
        have hstart : start + e + min len (r.capacity - r.logicalToRingIndex start) + gapStart =
            start + min len (r.capacity - r.logicalToRingIndex start) + gapStart + e := by omega
        dsimp only
        rw [hstart]
        rfl
      | none => rfl
    · rfl

theorem Fits.segmentAt_later (h : Fits w r) (he : r.capacity ∣ e) (cursor readable : Nat) :
    r.segmentAt (cursor + e) readable = r.segmentAt cursor readable := by
  have hindex : r.logicalToRingIndex (cursor + e) = r.logicalToRingIndex cursor := by
    obtain ⟨n, rfl⟩ := he
    rw [h.ringIndex, h.ringIndex, Nat.add_mul_mod_self_left]
  unfold RingBuffer.segmentAt
  rw [h.searchGapAbs_later he, hindex]
  cases r.searchGapAbs cursor readable with
  | none => rfl
  | some gap =>
    obtain ⟨start, len⟩ := gap
    have hsub : start + e - (cursor + e) = start - cursor := by omega
    simp only [Option.map_some, Nat.add_right_cancel_iff, hsub]

/-- **One call of `next`** some rounds later yields the same. -/
theorem Fits.next_later (h : Fits w r) (he : r.capacity ∣ e) (it : RingSegments) :
    r.next (RingSegments.later it e) =
      (r.next it).map fun found => (found.1, RingSegments.later found.2 e) := by
  have hsegment := h.segmentAt_later he it.cursor it.readable
  unfold RingBuffer.next RingSegments.later
  dsimp only
  rw [hsegment]
  by_cases hover : it.overflow > 0
  · rw [if_pos hover, if_pos hover]
    rfl
  · rw [if_neg hover, if_neg hover]
    by_cases hread : it.readable > 0
    · rw [if_pos hread, if_pos hread, Option.map_some, Nat.add_right_comm]
    · rw [if_neg hread, if_neg hread]
      split <;> rfl

theorem Fits.visit_later (h : Fits w r) (he : r.capacity ∣ e) (visits : Nat) (it : RingSegments) :
    r.visit visits (RingSegments.later it e) =
      ((r.visit visits it).1, RingSegments.later (r.visit visits it).2 e) := by
  induction visits generalizing it with
  | zero => rfl
  | succ visits ih =>
    have hnext := h.next_later he it
    unfold RingBuffer.visit
    rw [hnext]
    cases r.next it with
    | none => rfl
    | some found =>
      dsimp only [Option.map_some]
      rw [ih]

/-- The heads of the narrow ring are never read by an iterator that is there. -/
theorem visit_narrow (w : Nat) (r : RingBuffer T) (visits : Nat) (it : RingSegments) :
    (narrow w r).visit visits it = r.visit visits it := by
  induction visits generalizing it with
  | zero => rfl
  | succ visits ih =>
    have hnext : (narrow w r).next it = r.next it := rfl
    unfold RingBuffer.visit
    rw [hnext]
    cases r.next it with
    | none => rfl
    | some found =>
      dsimp only
      rw [ih]

/-- **The condition.** Both heads have wrapped equally often. -/
def WrappedAlike (w : Nat) (r : RingBuffer T) : Prop :=
  r.writeHead / 2 ^ w = r.readHead / 2 ^ w

/-- Where the heads stand behind the wraps that they have in common. -/
theorem WrappedAlike.split (h : WrappedAlike w r) :
    ∃ n, r.writeHead = (narrow w r).writeHead + 2 ^ w * n ∧
      r.readHead = (narrow w r).readHead + 2 ^ w * n := by
  refine ⟨r.writeHead / 2 ^ w, ?_, ?_⟩
  · exact (Nat.mod_add_div _ _).symm
  · rw [h]
    exact (Nat.mod_add_div _ _).symm

theorem WrappedAlike.iterSegments (h : WrappedAlike w r) :
    ∃ n, ∀ requested emitUnderflow, r.iterSegments requested emitUnderflow =
      RingSegments.later ((narrow w r).iterSegments requested emitUnderflow) (2 ^ w * n) := by
  obtain ⟨n, hwrite, hread⟩ := h.split
  refine ⟨n, fun requested emitUnderflow => ?_⟩
  have hcapacity : (narrow w r).capacity = r.capacity := rfl
  generalize 2 ^ w * n = e at hwrite hread
  have hover : r.writeHead - r.capacity - r.readHead =
      (narrow w r).writeHead - r.capacity - (narrow w r).readHead := by omega
  unfold RingBuffer.iterSegments RingSegments.later
  dsimp only
  rw [hcapacity, hover]
  generalize min ((narrow w r).writeHead - r.capacity - (narrow w r).readHead) requested = lost
  have hleft : r.writeHead - (r.readHead + lost) =
      (narrow w r).writeHead - ((narrow w r).readHead + lost) := by omega
  have hcursor : r.readHead + lost = (narrow w r).readHead + lost + e := by omega
  rw [hleft, hcursor]

/-- **The same reads**, where the heads have wrapped equally often. -/
theorem Fits.visit_alike (h : Fits w r) (halike : WrappedAlike w r)
    (requested : Nat) (emitUnderflow : Bool) (visits : Nat) :
    ((narrow w r).visit visits ((narrow w r).iterSegments requested emitUnderflow)).1 =
        (r.visit visits (r.iterSegments requested emitUnderflow)).1 ∧
      ((narrow w r).visit visits ((narrow w r).iterSegments requested emitUnderflow)).2.consumed =
        (r.visit visits (r.iterSegments requested emitUnderflow)).2.consumed := by
  obtain ⟨n, hiterator⟩ := halike.iterSegments
  rw [hiterator, visit_narrow, h.visit_later (Nat.dvd_mul_right_of_dvd h.dvd n)]
  exact ⟨rfl, rfl⟩

theorem Fits.readableSlice_alike (h : Fits w r)
    (halike : WrappedAlike w r) : (narrow w r).readableSlice = r.readableSlice := by
  obtain ⟨n, hwrite, hread⟩ := halike.split
  have hindex : ∀ p, r.logicalToRingIndex (p + 2 ^ w * n) = r.logicalToRingIndex p := by
    intro p
    rw [← h.index_mod (p + 2 ^ w * n), Nat.add_mul_mod_self_left, h.index_mod]
  have hcapacity : (narrow w r).capacity = r.capacity := rfl
  have hring : (narrow w r).ring = r.ring := rfl
  have hsame : ∀ p, (narrow w r).logicalToRingIndex p = r.logicalToRingIndex p := fun _ => rfl
  generalize 2 ^ w * n = e at hwrite hread hindex
  have hover : r.writeHead - r.capacity - r.readHead =
      (narrow w r).writeHead - r.capacity - (narrow w r).readHead := by omega
  unfold RingBuffer.readableSlice
  dsimp only
  rw [hcapacity, hring, hsame, hover]
  generalize (narrow w r).writeHead - r.capacity - (narrow w r).readHead = lost
  have hleft : r.writeHead - (r.readHead + lost) =
      (narrow w r).writeHead - ((narrow w r).readHead + lost) := by omega
  have hcursor : r.readHead + lost = (narrow w r).readHead + lost + e := by omega
  rw [hleft, hcursor, hindex]

/-! ## What a reader sees -/

/-- Both rings yield the same segments to every iterator and have the same readable slice. -/
def SeesSame (r r' : RingBuffer T) : Prop :=
  (∀ requested emitUnderflow visits,
      (r'.takeSegments requested emitUnderflow visits).2 =
        (r.takeSegments requested emitUnderflow visits).2) ∧
    r'.readableSlice = r.readableSlice

/-- The reader is at most half the range of a head behind or ahead. -/
structure Near (w : Nat) (r : RingBuffer T) : Prop where
  behind : r.writeHead ≤ r.readHead + 2 ^ (w - 1)
  ahead : r.readHead ≤ r.writeHead + 2 ^ (w - 1)

theorem segmentAt_ne_underflow (r : RingBuffer T) (cursor readable count : Nat) :
    r.segmentAt cursor readable ≠ .underflow count := by
  unfold RingBuffer.segmentAt
  split
  · split <;> simp
  · simp

/-- The first position of a read runs dry only where the write head does not lie in front. -/
theorem first_underflow_iff (r : RingBuffer T) (hcapacity : 0 < r.capacity) :
    (r.takeSegments 1 true 1).2 = [.underflow 1] ↔ r.writeHead ≤ r.readHead := by
  unfold RingBuffer.takeSegments RingBuffer.iterSegments
  dsimp only
  unfold RingBuffer.visit RingBuffer.next
  dsimp only
  by_cases hover : min (r.writeHead - r.capacity - r.readHead) 1 > 0
  · rw [if_pos hover]
    constructor
    · intro h
      cases h
    · intro hle
      omega
  · rw [if_neg hover]
    by_cases hread : min (min (r.writeHead - (r.readHead +
        min (r.writeHead - r.capacity - r.readHead) 1)) r.capacity)
          (1 - min (r.writeHead - r.capacity - r.readHead) 1) > 0
    · rw [if_pos hread]
      constructor
      · intro h
        exact absurd (List.cons.inj h).1 (segmentAt_ne_underflow r _ _ 1)
      · intro hle
        omega
    · have hle : r.writeHead ≤ r.readHead := by omega
      have hunder : 1 - min (r.writeHead - r.capacity - r.readHead) 1 -
          min (min (r.writeHead - (r.readHead +
            min (r.writeHead - r.capacity - r.readHead) 1)) r.capacity)
              (1 - min (r.writeHead - r.capacity - r.readHead) 1) = 1 := by omega
      rw [if_neg hread, if_pos rfl, if_pos (by rw [hunder]; exact Nat.one_pos)]
      simp only [hunder]
      exact ⟨fun _ => hle, fun _ => rfl⟩

/-- **Where one head has wrapped** and the other has not, their order is turned round. -/
theorem Near.order_turned (h : Near w r) (hw : 0 < w) (halike : ¬WrappedAlike w r) :
    (narrow w r).writeHead ≤ (narrow w r).readHead ↔ ¬r.writeHead ≤ r.readHead := by
  have hbehind := h.behind
  have hahead := h.ahead
  have hpow : 2 ^ w = 2 * 2 ^ (w - 1) := by
    rw [← Nat.pow_succ']
    congr 1
    omega
  have hpos : 0 < 2 ^ (w - 1) := Nat.two_pow_pos _
  unfold WrappedAlike at halike
  show r.writeHead % 2 ^ w ≤ r.readHead % 2 ^ w ↔ _
  rw [hpow] at halike ⊢
  generalize 2 ^ (w - 1) = half at *
  have hwrite := Nat.div_add_mod r.writeHead (2 * half)
  have hread := Nat.div_add_mod r.readHead (2 * half)
  have hwriteLt := Nat.mod_lt r.writeHead (show 0 < 2 * half by omega)
  have hreadLt := Nat.mod_lt r.readHead (show 0 < 2 * half by omega)
  generalize r.writeHead / (2 * half) = m at *
  generalize r.readHead / (2 * half) = n at *
  generalize r.writeHead % (2 * half) = a at *
  generalize r.readHead % (2 * half) = b at *
  rcases Nat.lt_or_gt_of_ne halike with hlt | hgt
  · have hmul : 2 * half * (m + 1) ≤ 2 * half * n := Nat.mul_le_mul_left _ hlt
    rw [Nat.mul_add, Nat.mul_one] at hmul
    omega
  · have hmul : 2 * half * (n + 1) ≤ 2 * half * m := Nat.mul_le_mul_left _ hgt
    rw [Nat.mul_add, Nat.mul_one] at hmul
    omega

/-- **In one state**, the narrow ring shows the same exactly when both heads have wrapped equally
often. -/
theorem Fits.seesSame_iff (h : Fits w r) (hnear : Near w r)
    (hw : 0 < w) : SeesSame r (narrow w r) ↔ WrappedAlike w r := by
  constructor
  · intro hsame
    by_contra halike
    have hpos : 0 < r.capacity := by
      obtain ⟨k, -, hcapacity⟩ := h.pow
      rw [hcapacity]
      exact Nat.two_pow_pos k
    have hturned := hnear.order_turned hw halike
    have hfirst := first_underflow_iff r hpos
    have hfirst' := first_underflow_iff (narrow w r) hpos
    rw [hsame.1 1 true 1, hfirst, hturned] at hfirst'
    exact iff_not_self hfirst'
  · intro halike
    exact ⟨fun requested emitUnderflow visits => (h.visit_alike halike _ _ _).1,
      h.readableSlice_alike halike⟩

/-! ## Runs -/

theorem narrow_readCommit (r : RingBuffer T) (count : Nat) :
    (Counter.usize w).readCommit (narrow w r) count =
      narrow w (Counter.unbounded.readCommit r count) := by
  unfold Counter.readCommit
  split
  · rfl
  · unfold narrow Counter.fetchAdd
    dsimp only
    rw [Nat.mod_add_mod]

theorem Fits.narrow_takeSegments (h : Fits w r)
    (halike : WrappedAlike w r) (requested : Nat) (emitUnderflow : Bool) (visits : Nat) :
    (Counter.usize w).takeSegments (narrow w r) requested emitUnderflow visits =
      narrow w (Counter.unbounded.takeSegments r requested emitUnderflow visits) := by
  unfold Counter.takeSegments
  rw [(h.visit_alike halike requested emitUnderflow visits).2, narrow_readCommit]

/-- **One call** from a state in which the heads have wrapped equally often. -/
theorem Fits.narrow_performCall [Inhabited T] (h : Fits w r)
    (halike : WrappedAlike w r) (call : RingCall T) :
    (Counter.usize w).performCall (narrow w r) call =
      (Counter.unbounded.performCall r call).map (narrow w) := by
  obtain ⟨hwrite, hdefault, hadvance⟩ := narrow_writing h
  cases call with
  | op op =>
    show some _ = some _
    congr 1
    cases op with
    | write input => exact hwrite input
    | writeDefault count => exact hdefault count
    | advanceTimeline size => exact hadvance size
    | takeSegments requested emitUnderflow visits =>
      exact h.narrow_takeSegments halike requested emitUnderflow visits
    | read out =>
      show (Counter.usize w).read (narrow w r) out = narrow w (Counter.unbounded.read r out)
      unfold Counter.read
      split
      · rfl
      · exact h.narrow_takeSegments halike _ _ _
  | writeSlice src =>
    show (if src.length ≤ r.capacity then some ((narrow w r).writeInto src) else none) =
      (if src.length ≤ r.capacity then some (r.writeInto src) else none).map (narrow w)
    split
    · rw [narrow_writeInto h]
      rfl
    · rfl
  | writeCommit written =>
    show (if written ≤ r.capacity then
        some ((Counter.usize w).writeCommitAdvance (narrow w r) written written) else none) =
      (if written ≤ r.capacity then
        some (Counter.unbounded.writeCommitAdvance r written written) else none).map (narrow w)
    split
    · rw [narrow_writeCommitAdvance h]
      rfl
    · rfl
  | readCommit count =>
    show some _ = some _
    congr 1
    exact narrow_readCommit r count

theorem Fits.performCall [Inhabited T] (h : Fits w r)
    (hstep : c.performCall r call = some r') : Fits w r' := by
  cases call with
  | op op =>
    obtain rfl := Option.some.inj hstep
    cases op with
    | write input =>
      show Fits w (c.write r input)
      unfold Counter.write
      dsimp only
      split
      · exact h
      · exact h.of_same rfl rfl
    | writeDefault count =>
      show Fits w (c.writeDefault r count)
      unfold Counter.writeDefault
      split
      · exact h
      · exact h.of_same rfl rfl
    | advanceTimeline size =>
      show Fits w (c.advanceTimeline r size)
      unfold Counter.advanceTimeline
      dsimp only
      split
      · exact h
      · exact h.of_same rfl rfl
    | takeSegments requested emitUnderflow visits =>
      show Fits w (c.takeSegments r requested emitUnderflow visits)
      unfold Counter.takeSegments Counter.readCommit
      split
      · exact h
      · exact h.of_same rfl rfl
    | read out =>
      show Fits w (c.read r out)
      unfold Counter.read Counter.takeSegments Counter.readCommit
      split
      · exact h
      · split
        · exact h
        · exact h.of_same rfl rfl
  | writeSlice src =>
    unfold Counter.performCall at hstep
    dsimp only at hstep
    split at hstep
    · obtain rfl := Option.some.inj hstep
      exact h.of_same rfl rfl
    · cases hstep
  | writeCommit written =>
    unfold Counter.performCall at hstep
    dsimp only at hstep
    split at hstep
    · obtain rfl := Option.some.inj hstep
      exact h.of_same rfl rfl
    · cases hstep
  | readCommit count =>
    obtain rfl := Option.some.inj hstep
    show Fits w (c.readCommit r count)
    unfold Counter.readCommit
    split
    · exact h
    · exact h.of_same rfl rfl

/-- `P` holds of the state at every prefix of the calls. -/
def Always [Inhabited T] (c : Counter) (P : RingBuffer T → Prop) (r : RingBuffer T)
    (calls : List (RingCall T)) : Prop :=
  ∀ first, first <+: calls → ∀ s, run c.performCall r first = some s → P s

theorem always_nil [Inhabited T] {P : RingBuffer T → Prop} :
    Always c P r [] ↔ P r := by
  constructor
  · intro h
    exact h [] List.prefix_rfl r rfl
  · intro h first hfirst s hs
    obtain rfl := List.prefix_nil.mp hfirst
    obtain rfl := Option.some.inj hs
    exact h

theorem always_cons [Inhabited T] {P : RingBuffer T → Prop} :
    Always c P r (call :: calls) ↔
      P r ∧ ∀ s, c.performCall r call = some s → Always c P s calls := by
  constructor
  · intro h
    refine ⟨h [] (List.nil_prefix) r rfl, fun s hs first hfirst t ht => ?_⟩
    exact h (call :: first) (List.cons_prefix_cons.mpr ⟨rfl, hfirst⟩) t
      (run_cons_eq_some.mpr ⟨s, hs, ht⟩)
  · rintro ⟨hhere, hlater⟩ first hfirst s hs
    cases first with
    | nil =>
      obtain rfl := Option.some.inj hs
      exact hhere
    | cons call' first =>
      obtain ⟨rfl, hrest⟩ := List.cons_prefix_cons.mp hfirst
      obtain ⟨t, ht, hs⟩ := run_cons_eq_some.mp hs
      exact hlater t ht first hrest s hs

/-- At every prefix of the calls the ring with heads of `w` bits is there and shows the same as the
one whose heads never wrap. -/
def ReadsAlike [Inhabited T] (w : Nat) (r r' : RingBuffer T) (calls : List (RingCall T)) : Prop :=
  ∀ first, first <+: calls → ∀ s, run Counter.unbounded.performCall r first = some s →
    ∃ s', run (Counter.usize w).performCall r' first = some s' ∧ SeesSame s s'

theorem readsAlike_cons [Inhabited T] :
    ReadsAlike w r r' (call :: calls) ↔
      SeesSame r r' ∧ ∀ s, Counter.unbounded.performCall r call = some s →
        ∃ s', (Counter.usize w).performCall r' call = some s' ∧ ReadsAlike w s s' calls := by
  constructor
  · intro h
    have hhere : SeesSame r r' := by
      obtain ⟨s', hs', hsame⟩ := h [] (List.nil_prefix) r rfl
      obtain rfl := Option.some.inj hs'
      exact hsame
    refine ⟨hhere, fun s hs => ?_⟩
    obtain ⟨t', ht', -⟩ := h [call] (List.cons_prefix_cons.mpr ⟨rfl, List.nil_prefix⟩) s
      (run_cons_eq_some.mpr ⟨s, hs, rfl⟩)
    obtain ⟨s', hs', -⟩ := run_cons_eq_some.mp ht'
    refine ⟨s', hs', fun first hfirst t ht => ?_⟩
    obtain ⟨u', hu', hsame⟩ := h (call :: first) (List.cons_prefix_cons.mpr ⟨rfl, hfirst⟩) t
      (run_cons_eq_some.mpr ⟨s, hs, ht⟩)
    obtain ⟨v', hv', hrun⟩ := run_cons_eq_some.mp hu'
    obtain rfl := Option.some.inj (hs'.symm.trans hv')
    exact ⟨u', hrun, hsame⟩
  · rintro ⟨hhere, hlater⟩ first hfirst s hs
    cases first with
    | nil =>
      obtain rfl := Option.some.inj hs
      exact ⟨r', rfl, hhere⟩
    | cons call' first =>
      obtain ⟨rfl, hrest⟩ := List.cons_prefix_cons.mp hfirst
      obtain ⟨t, ht, hs⟩ := run_cons_eq_some.mp hs
      obtain ⟨t', ht', hreads⟩ := hlater t ht
      obtain ⟨s', hs', hsame⟩ := hreads first hrest s hs
      exact ⟨s', run_cons_eq_some.mpr ⟨t', ht', hs'⟩, hsame⟩

theorem Fits.readsAlike_iff [Inhabited T] (hw : 0 < w) (h : Fits w r)
    (hnear : Always .unbounded (Near w) r calls) :
    ReadsAlike w r (narrow w r) calls ↔ Always .unbounded (WrappedAlike w) r calls := by
  induction calls generalizing r with
  | nil =>
    rw [always_nil] at hnear ⊢
    rw [← h.seesSame_iff hnear hw]
    constructor
    · intro hreads
      obtain ⟨s', hs', hsame⟩ := hreads [] List.prefix_rfl r rfl
      obtain rfl := Option.some.inj hs'
      exact hsame
    · intro hsame first hfirst s hs
      obtain rfl := List.prefix_nil.mp hfirst
      obtain rfl := Option.some.inj hs
      exact ⟨_, rfl, hsame⟩
  | cons call calls ih =>
    obtain ⟨hhere, hlater⟩ := always_cons.mp hnear
    rw [readsAlike_cons, always_cons, h.seesSame_iff hhere hw]
    refine and_congr_right fun halike => forall₂_congr fun s hs => ?_
    rw [h.narrow_performCall halike, hs]
    rw [← ih (h.performCall hs) (hlater s hs)]
    constructor
    · rintro ⟨s', hs', hreads⟩
      obtain rfl := Option.some.inj hs'
      exact hreads
    · intro hreads
      exact ⟨_, rfl, hreads⟩

/-- **Counters that wrap.** In every run in which the reader stays within half the range of a head,
iterators and the readable slice show the same as with heads that never wrap, exactly when in every
state of the run both heads have wrapped equally often. -/
theorem counters_iff [Inhabited T] (w : Nat) (mapped : Bool) (size : Nat)
    (hcapacity : (newUnsplit mapped size : RingBuffer T).capacity < 2 ^ w)
    (calls : List (RingCall T))
    (hnear : Always .unbounded (Near w) (newUnsplit mapped size) calls) :
    ReadsAlike w (newUnsplit mapped size) (newUnsplit mapped size) calls ↔
      Always .unbounded (WrappedAlike w) (newUnsplit mapped size) calls := by
  have hframed := framed_new (T := T) mapped size
  obtain ⟨k, hk⟩ := hframed.pow
  rw [hk] at hcapacity
  have hle : k < w := (Nat.pow_lt_pow_iff_right (by decide)).mp hcapacity
  have hfits : Fits w (newUnsplit mapped size : RingBuffer T) := ⟨⟨k, by omega, hk⟩, hframed.mask⟩
  have hnarrow : narrow w (newUnsplit mapped size : RingBuffer T) = newUnsplit mapped size := by
    unfold narrow RingBuffer.newUnsplit
    dsimp only
    rw [Nat.zero_mod]
  have hiff := hfits.readsAlike_iff (by omega) hnear
  rw [hnarrow] at hiff
  exact hiff

/-- Two samples written and one of them read, with heads of 32 bits. -/
theorem counters_iff_unwrapped :
    ReadsAlike 32 (newUnsplit true 4 : RingBuffer Nat) (newUnsplit true 4)
      [.op (.write [1, 2]), .op (.takeSegments 1 true 2)] := by
  have hstates : ∀ P : RingBuffer Nat → Prop, P (newUnsplit true 4) →
      (∀ s, Counter.unbounded.performCall (newUnsplit true 4) (.op (.write [1, 2])) = some s →
        P s ∧ ∀ t, Counter.unbounded.performCall s (.op (.takeSegments 1 true 2)) = some t → P t) →
      Always .unbounded P (newUnsplit true 4) [.op (.write [1, 2]), .op (.takeSegments 1 true 2)] := by
    intro P hnew hlater
    refine always_cons.mpr ⟨hnew, fun s hs => always_cons.mpr ⟨(hlater s hs).1, fun t ht => ?_⟩⟩
    exact always_nil.mpr ((hlater s hs).2 t ht)
  apply (counters_iff 32 true 4 (by decide +kernel) _ ?_).mpr
  · refine hstates _ rfl fun s hs => ?_
    obtain rfl := Option.some.inj hs
    refine ⟨by unfold WrappedAlike; decide +kernel, fun t ht => ?_⟩
    obtain rfl := Option.some.inj ht
    unfold WrappedAlike
    decide +kernel
  · refine hstates _ ⟨by decide +kernel, by decide⟩ fun s hs => ?_
    obtain rfl := Option.some.inj hs
    refine ⟨⟨by decide, by decide⟩, fun t ht => ?_⟩
    obtain rfl := Option.some.inj ht
    exact ⟨by decide +kernel, by decide +kernel⟩

/-- The calls after which the write head has wrapped and the read head stands one before it. -/
def wrapCalls : List (RingCall Nat) :=
  [.op (.advanceTimeline (2 ^ 31)), .op (.takeSegments (2 ^ 31) true 3),
    .op (.advanceTimeline (2 ^ 31 - 1)), .op (.takeSegments (2 ^ 31 - 1) true 3),
    .op (.write [1, 2])]

/-- **One head has wrapped.** With heads of 32 bits the two samples that lie on both sides of the
wrap are not there to be read. -/
theorem one_head_wrapped :
    Always .unbounded (Near 32) (newUnsplit true 4) wrapCalls ∧
      (∃ s s', run Counter.unbounded.performCall (newUnsplit true 4) wrapCalls = some s ∧
        run (Counter.usize 32).performCall (newUnsplit true 4) wrapCalls = some s' ∧
        (s.takeSegments 2 true 3).2 = [.data [1, 2]] ∧
        (s'.takeSegments 2 true 3).2 = [.underflow 2] ∧
        s.readableSlice = (0, [1, 2]) ∧ s'.readableSlice = (0, [])) ∧
      ¬ReadsAlike 32 (newUnsplit true 4) (newUnsplit true 4) wrapCalls := by
  refine ⟨?_, ⟨_, _, rfl, rfl, ?_, ?_, ?_, ?_⟩, fun h => ?_⟩
  · refine always_cons.mpr ⟨⟨by decide, by decide⟩, fun s hs => ?_⟩
    obtain rfl := Option.some.inj hs
    refine always_cons.mpr ⟨⟨by decide, by decide⟩, fun s hs => ?_⟩
    obtain rfl := Option.some.inj hs
    refine always_cons.mpr ⟨⟨by decide +kernel, by decide +kernel⟩, fun s hs => ?_⟩
    obtain rfl := Option.some.inj hs
    refine always_cons.mpr ⟨⟨by decide +kernel, by decide +kernel⟩, fun s hs => ?_⟩
    obtain rfl := Option.some.inj hs
    refine always_cons.mpr ⟨⟨by decide +kernel, by decide +kernel⟩, fun s hs => ?_⟩
    obtain rfl := Option.some.inj hs
    exact always_nil.mpr ⟨by decide +kernel, by decide +kernel⟩
  · decide +kernel
  · decide +kernel
  · decide +kernel
  · decide +kernel
  · obtain ⟨s', hs', hsame⟩ := h wrapCalls List.prefix_rfl _ rfl
    obtain rfl := Option.some.inj hs'
    exact absurd hsame.2 (by decide +kernel)

end Catplay.Analysis.Ring
