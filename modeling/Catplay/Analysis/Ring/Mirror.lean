import Catplay.Analysis.Ring.Twins

/-!
# The copied storage and the mapped one

The fallback storage keeps every cell twice, where the mapped storage has it once. What is
written through the slice stands in one of the two copies until it is committed; `Half` says in
which. A commit copies the lower cells up and the wrapped cells down, so it takes the samples
that were written since the write head last moved, and not the ones that an earlier slice left
in the other copy (`split_commit_differs`). Where commits do that, the two storages cannot be
told apart (`copied_like_mapped`).
-/

set_option autoImplicit false

namespace Catplay.Analysis.Ring

open Catplay.Library.Run Catplay.Model.Ring Catplay.Model.Ring.RingBuffer

variable {T : Type}

/-! ## The two storages -/

/-- One of the two copies of a cell. -/
inductive Half
  | lower
  | upper
  deriving DecidableEq, Repr

/-- The copies of a cell, and the cell of the mapped storage. A sample that is not committed yet
stands in one of the copies. -/
def CellAlike (low high cell : Option T) : Option Half → Prop
  | none => low = cell ∧ high = cell
  | some .lower => low = cell
  | some .upper => high = cell

structure SameCells (cap : Nat) (cells pages : List T) (pending : Nat → Option Half) : Prop where
  length : cells.length = 2 * cap
  mapped : pages.length = cap
  alike : ∀ i, i < cap → CellAlike cells[i]? cells[i + cap]? pages[i]? (pending i)

/-- A slice from `head` on reaches the lower copies of the first cells and the upper copies of those
behind the end. -/
def writtenAt (cap head count : Nat) (pending : Nat → Option Half) (i : Nat) : Option Half :=
  if head ≤ i ∧ i < head + count then some .lower
  else if i + cap < head + count then some .upper
  else pending i

def committedAt (cap head count : Nat) (pending : Nat → Option Half) (i : Nat) : Option Half :=
  if InRegion cap head count i then none else pending i

/-- **What a commit takes**: no sample of its region stands in the copy that it writes over. -/
def Takes (cap head count : Nat) (pending : Nat → Option Half) : Prop :=
  ∀ i, i < cap → (head ≤ i ∧ i < head + count → pending i ≠ some .upper) ∧
    (i + cap < head + count → pending i ≠ some .lower)

instance (cap head count : Nat) (pending : Nat → Option Half) :
    Decidable (Takes cap head count pending) := by
  unfold Takes
  infer_instance

variable {cap count head : Nat} {pending : Nat → Option Half} {copied mapped : RingBuffer T}

/-- A commit takes what was just written. -/
theorem takes_writtenAt (hcount : count ≤ cap)
    (pending : Nat → Option Half) : Takes cap head count (writtenAt cap head count pending) := by
  intro i hi
  unfold writtenAt
  constructor
  · intro hin
    rw [if_pos hin]
    simp
  · intro hin
    rw [if_neg (by omega), if_pos hin]
    simp

theorem committedAt_writtenAt (cap head count : Nat) (pending : Nat → Option Half) :
    committedAt cap head count (writtenAt cap head count pending) =
      committedAt cap head count pending := by
  funext i
  unfold committedAt
  by_cases hin : InRegion cap head count i
  · rw [if_pos hin, if_pos hin]
  · rw [if_neg hin, if_neg hin]
    unfold InRegion at hin
    unfold writtenAt
    rw [if_neg (by omega), if_neg (by omega)]

theorem SameCells.writeSlice {cells pages : List T} (h : SameCells cap cells pages pending)
    {src : List T} (hhead : head < cap) (hsrc : src.length ≤ cap) :
    ∃ pages', (RingStorage.mirroredMmap pages).writeSlice head src = .mirroredMmap pages' ∧
      SameCells cap (copyFromSlice cells head src) pages'
        (writtenAt cap head src.length pending) := by
  have hlength := h.length
  have hfits : head + src.length ≤ cells.length := by omega
  have hcopied := getElem?_copyFromSlice hfits
  obtain ⟨pages', hwrite, hpages, hmapped⟩ := writeSlice_mmap h.mapped hhead hsrc
  refine ⟨pages', hwrite, (length_copyFromSlice hfits).trans hlength, hpages, fun i hi => ?_⟩
  have hcell := h.alike i hi
  obtain ⟨hold, -⟩ := mapped_cells h.mapped hi
  rw [hmapped i hi, hcopied, hcopied]
  unfold cellAfterWrite writtenAt RingStorage.asSlice
  dsimp only
  rw [hold]
  by_cases hin : head ≤ i ∧ i < head + src.length
  · rw [if_pos hin, if_pos hin, if_pos hin]
    rfl
  · rw [if_neg hin, if_neg hin, if_neg hin]
    by_cases hwrapped : i + cap < head + src.length
    · rw [if_pos hwrapped, if_pos hwrapped, if_pos (by omega)]
      rfl
    · have hhigh : ¬(head ≤ i + cap ∧ i + cap < head + src.length) := by omega
      rw [if_neg hwrapped, if_neg hwrapped, if_neg hhigh]
      exact hcell

/-- **The copy between the halves** makes both copies of the committed cells the mapped cell. -/
theorem SameCells.sync {cells pages : List T} (h : SameCells cap cells pages pending)
    (hhead : head < cap) (hcount : count ≤ cap) (htakes : Takes cap head count pending) :
    ∃ cells', (RingStorage.mirroredVec cells).syncMirrorRange cap head count = .mirroredVec cells' ∧
      SameCells cap cells' pages (committedAt cap head count pending) := by
  obtain ⟨cells', hsync, hlength, hcells⟩ := sync_vec h.length hhead hcount
  refine ⟨cells', hsync, hlength, h.mapped, fun i hi => ?_⟩
  obtain ⟨hlow, hhigh⟩ := hcells i hi
  obtain ⟨hnotUpper, hnotLower⟩ := htakes i hi
  have hcell := h.alike i hi
  have hregion : InRegion cap head count i ↔
      (head ≤ i ∧ i < head + count) ∨ i + cap < head + count := Iff.rfl
  rw [hlow, hhigh]
  unfold committedAt
  by_cases hin : head ≤ i ∧ i < head + count
  · -- the lower copy is copied up
    rw [if_neg (by omega), if_pos hin, if_pos (hregion.mpr (Or.inl hin))]
    have hlower : cells[i]? = pages[i]? := by
      rcases hpending : pending i with _ | half
      · rw [hpending] at hcell
        exact hcell.1
      · cases half with
        | lower =>
          rw [hpending] at hcell
          exact hcell
        | upper => exact absurd hpending (hnotUpper hin)
    exact ⟨hlower, hlower⟩
  · rw [if_neg hin]
    by_cases hwrapped : i + cap < head + count
    · -- the upper copy is copied down
      rw [if_pos hwrapped, if_pos (hregion.mpr (Or.inr hwrapped))]
      have hupper : cells[i + cap]? = pages[i]? := by
        rcases hpending : pending i with _ | half
        · rw [hpending] at hcell
          exact hcell.2
        · cases half with
          | lower => exact absurd hpending (hnotLower hwrapped)
          | upper =>
            rw [hpending] at hcell
            exact hcell
      exact ⟨hupper, hupper⟩
    · have houtside : ¬InRegion cap head count i := fun h => (hregion.mp h).elim hin hwrapped
      rw [if_neg hwrapped, if_neg houtside]
      exact hcell

/-! ## The two rings -/

/-- The same ring over both storages. -/
structure Coupled (copied mapped : RingBuffer T) (pending : Nat → Option Half) : Prop where
  rest : copied = { mapped with ring := copied.ring }
  framed : Framed mapped
  storages : ∃ cells pages, copied.ring = .mirroredVec cells ∧ mapped.ring = .mirroredMmap pages ∧
    SameCells mapped.capacity cells pages pending

theorem Coupled.twins (h : Coupled copied mapped pending) : Twins mapped copied := by
  obtain ⟨cells, pages, hcopied, hmapped, hcells⟩ := h.storages
  refine ⟨h.rest, h.framed, ?_, ?_⟩
  · rw [hmapped]
    show (pages ++ pages).length = 2 * mapped.capacity
    rw [List.length_append, hcells.mapped, Nat.two_mul]
  · rw [hcopied]
    exact hcells.length

/-- Where nothing is pending the copies are alike, and like the mapped cell. -/
theorem Coupled.agreeAt (h : Coupled copied mapped pending) {i : Nat} (hi : i < mapped.capacity)
    (hpending : pending i = none) :
    AgreeAt mapped.capacity mapped.ring copied.ring i ∧
      copied.ring.asSlice[i]? = copied.ring.asSlice[i + mapped.capacity]? := by
  obtain ⟨cells, pages, hcopied, hmapped, hcells⟩ := h.storages
  have hcell := hcells.alike i hi
  rw [hpending] at hcell
  obtain ⟨hlow, hhigh⟩ := hcell
  obtain ⟨hlow', hhigh'⟩ := mapped_cells hcells.mapped hi
  rw [hcopied, hmapped]
  exact ⟨⟨hlow.trans hlow'.symm, hhigh.trans hhigh'.symm⟩, hlow.trans hhigh.symm⟩

/-- The heads and the gaps change, and the storage does not. -/
theorem Coupled.of_storage {copied' mapped' : RingBuffer T} (h : Coupled copied mapped pending)
    (htwins : Twins mapped' copied') (hcopied : copied'.ring = copied.ring)
    (hmapped : mapped'.ring = mapped.ring) (hcapacity : mapped'.capacity = mapped.capacity) :
    Coupled copied' mapped' pending := by
  refine ⟨htwins.rest, htwins.framed, ?_⟩
  rw [hcopied, hmapped, hcapacity]
  exact h.storages

/-- **A write through the slice** leaves its samples pending. -/
theorem Coupled.writeInto
    (h : Coupled copied mapped pending) {src : List T} (hsrc : src.length ≤ mapped.capacity) :
    Coupled (copied.writeInto src) (mapped.writeInto src)
      (writtenAt mapped.capacity (mapped.writeHead % mapped.capacity) src.length pending) := by
  have hhead := Nat.mod_lt mapped.writeHead h.framed.capacity_pos
  have hindex : copied.logicalToRingIndex copied.writeHead = mapped.writeHead % mapped.capacity := by
    rw [h.twins.ringIndex, h.rest]
  obtain ⟨cells, pages, hcopied, hmapped, hcells⟩ := h.storages
  obtain ⟨pages', hwrite, hcells'⟩ := hcells.writeSlice hhead hsrc
  refine ⟨?_, h.framed.of_gaps rfl rfl h.framed.sound rfl, _, pages', ?_, ?_, hcells'⟩
  · rw [h.rest]
    rfl
  · unfold RingBuffer.writeInto
    dsimp only
    rw [hindex, hcopied]
    rfl
  · unfold RingBuffer.writeInto
    dsimp only
    rw [h.framed.ringIndex, hmapped, hwrite]

/-- **A commit** settles the cells of its region, when it takes what stands in them. -/
theorem Coupled.writeCommitAdvance (h : Coupled copied mapped pending) {writtenPhys : Nat}
    (advance : Nat) (hwritten : writtenPhys ≤ mapped.capacity)
    (htakes : Takes mapped.capacity (mapped.writeHead % mapped.capacity) writtenPhys pending) :
    Coupled (copied.writeCommitAdvance writtenPhys advance)
      (mapped.writeCommitAdvance writtenPhys advance)
      (committedAt mapped.capacity (mapped.writeHead % mapped.capacity) writtenPhys pending) := by
  have hhead := Nat.mod_lt mapped.writeHead h.framed.capacity_pos
  have hindex : copied.logicalToRingIndex copied.writeHead = mapped.writeHead % mapped.capacity := by
    rw [h.twins.ringIndex, h.rest]
  have hcapacity := h.twins.capacity
  obtain ⟨cells, pages, hcopied, hmapped, hcells⟩ := h.storages
  obtain ⟨cells', hsync, hcells'⟩ := hcells.sync hhead hwritten htakes
  have hrest : copied.writeCommitAdvance writtenPhys advance =
      { mapped.writeCommitAdvance writtenPhys advance with
        ring := (copied.writeCommitAdvance writtenPhys advance).ring } := by
    rw [h.rest]
    rfl
  refine ⟨hrest, h.framed.writeCommitAdvance _ _, ?_⟩
  unfold RingBuffer.writeCommitAdvance
  dsimp only
  rw [hindex, hcapacity, hcopied, hmapped]
  by_cases hpositive : writtenPhys > 0
  · rw [if_pos hpositive, if_pos hpositive]
    exact ⟨cells', pages, hsync, rfl, hcells'⟩
  · rw [if_neg hpositive, if_neg hpositive]
    have hnone : writtenPhys = 0 := by omega
    refine ⟨cells, pages, rfl, rfl, hcells.length, hcells.mapped, fun i hi => ?_⟩
    have houtside : ¬InRegion mapped.capacity (mapped.writeHead % mapped.capacity) writtenPhys i := by
      unfold InRegion
      omega
    unfold committedAt
    rw [if_neg houtside]
    exact hcells.alike i hi

/-- A write with its commit leaves nothing of it pending. -/
theorem Coupled.store (h : Coupled copied mapped pending) (src : List T) (advance : Nat)
    (hsrc : src.length ≤ mapped.capacity) :
    Coupled ((copied.writeInto src).writeCommitAdvance src.length advance)
      ((mapped.writeInto src).writeCommitAdvance src.length advance)
      (committedAt mapped.capacity (mapped.writeHead % mapped.capacity) src.length pending) := by
  have hstored := (h.writeInto hsrc).writeCommitAdvance advance hsrc (takes_writtenAt hsrc pending)
  rw [← committedAt_writtenAt]
  exact hstored

theorem Coupled.advanceTimeline (h : Coupled copied mapped pending) (size : Nat) :
    Coupled (copied.advanceTimeline size) (mapped.advanceTimeline size) pending := by
  have hrest : copied.advanceTimeline size =
      { mapped.advanceTimeline size with ring := (copied.advanceTimeline size).ring } := by
    rw [h.rest]
    unfold RingBuffer.advanceTimeline
    dsimp only
    split
    · rfl
    · rfl
  have hstorage : ∀ r : RingBuffer T, (r.advanceTimeline size).ring = r.ring ∧
      (r.advanceTimeline size).capacity = r.capacity := by
    intro r
    unfold RingBuffer.advanceTimeline
    dsimp only
    split
    · exact ⟨rfl, rfl⟩
    · exact ⟨rfl, rfl⟩
  refine ⟨hrest, h.framed.advanceTimeline size, ?_⟩
  rw [(hstorage copied).1, (hstorage mapped).1, (hstorage mapped).2]
  exact h.storages

/-! ## Runs -/

/-- The same ring over both storages, and the samples that are not committed. -/
structure Pairing (T : Type) where
  copied : RingBuffer T
  mapped : RingBuffer T
  pending : Nat → Option Half

def pairing [Inhabited T] (size : Nat) : Pairing T :=
  ⟨newUnsplit false size, newUnsplit true size, fun _ => none⟩

/-- The samples that are not committed after a call. -/
def Pairing.pendingAfter (x : Pairing T) : RingCall T → Nat → Option Half
  | .op (.write input) =>
    committedAt x.mapped.capacity (x.mapped.writeHead % x.mapped.capacity)
      (min input.length x.mapped.capacity) x.pending
  | .op (.writeDefault count) =>
    committedAt x.mapped.capacity (x.mapped.writeHead % x.mapped.capacity)
      (min count x.mapped.capacity) x.pending
  | .writeSlice src =>
    writtenAt x.mapped.capacity (x.mapped.writeHead % x.mapped.capacity) src.length x.pending
  | .writeCommit written =>
    committedAt x.mapped.capacity (x.mapped.writeHead % x.mapped.capacity) written x.pending
  | _ => x.pending

def pairStep [Inhabited T] (x : Pairing T) (call : RingCall T) : Option (Pairing T) :=
  (performCall x.copied call).bind fun copied =>
    (performCall x.mapped call).map fun mapped => ⟨copied, mapped, x.pendingAfter call⟩

/-- A commit takes what was written through the slice since the write head last moved. -/
def CommitTakes (x : Pairing T) : RingCall T → Prop
  | .writeCommit written =>
    Takes x.mapped.capacity (x.mapped.writeHead % x.mapped.capacity) written x.pending
  | _ => True

instance (x : Pairing T) (call : RingCall T) : Decidable (CommitTakes x call) := by
  unfold CommitTakes
  split <;> infer_instance

theorem committedAt_zero (hhead : head < cap) (pending : Nat → Option Half) :
    committedAt cap head 0 pending = pending := by
  funext i
  have houtside : ¬InRegion cap head 0 i := by
    unfold InRegion
    omega
  unfold committedAt
  rw [if_neg houtside]

variable {x : Pairing T}

/-- **One operation** keeps the rings coupled. -/
theorem Coupled.perform [Inhabited T] (h : Coupled x.copied x.mapped x.pending) (op : Op T) :
    Coupled (perform x.copied op) (perform x.mapped op) (x.pendingAfter (.op op)) := by
  have hcapacity := h.twins.capacity
  have hhead := Nat.mod_lt x.mapped.writeHead h.framed.capacity_pos
  cases op with
  | write input =>
    show Coupled (x.copied.write input).1 (x.mapped.write input).1 (committedAt _ _ _ _)
    unfold RingBuffer.write
    dsimp only
    by_cases hempty : input.length = 0
    · rw [if_pos hempty, if_pos hempty, hempty, Nat.zero_min, committedAt_zero hhead]
      exact h
    · have hlength : (input.drop (input.length - min input.length x.mapped.capacity)).length =
          min input.length x.mapped.capacity := by
        rw [List.length_drop]
        omega
      have hstored := h.store (input.drop (input.length - min input.length x.mapped.capacity))
        input.length (by omega)
      rw [hlength] at hstored
      rw [if_neg hempty, if_neg hempty, hcapacity]
      exact hstored
  | writeDefault count =>
    show Coupled (x.copied.writeDefault count) (x.mapped.writeDefault count) (committedAt _ _ _ _)
    unfold RingBuffer.writeDefault
    by_cases hempty : count = 0
    · rw [if_pos hempty, if_pos hempty, hempty, Nat.zero_min, committedAt_zero hhead]
      exact h
    · have hlength : (List.replicate (min count x.mapped.capacity) (default : T)).length =
          min count x.mapped.capacity := List.length_replicate
      have hstored := h.store (List.replicate (min count x.mapped.capacity) default) count (by omega)
      rw [hlength] at hstored
      rw [if_neg hempty, if_neg hempty, hcapacity]
      exact hstored
  | advanceTimeline size => exact h.advanceTimeline size
  | takeSegments requested emitUnderflow visits =>
    have hreader : ∀ r : RingBuffer T,
        (r.takeSegments requested emitUnderflow visits).1.ring = r.ring ∧
          (r.takeSegments requested emitUnderflow visits).1.capacity = r.capacity := by
      intro r
      have hsame := readCommit_same r
        (r.visit visits (r.iterSegments requested emitUnderflow)).2.consumed
      exact ⟨hsame.storage, hsame.capacity⟩
    exact h.of_storage (h.twins.takeSegments requested emitUnderflow visits).1 (hreader _).1
      (hreader _).1 (hreader _).2
  | read out =>
    have hreader : ∀ r : RingBuffer T,
        (r.read out).1.ring = r.ring ∧ (r.read out).1.capacity = r.capacity := by
      intro r
      have hsame := readCommit_same r
        (r.visit (out.length + 1) (r.iterSegments out.length true)).2.consumed
      unfold RingBuffer.read
      dsimp only
      split
      · exact ⟨rfl, rfl⟩
      · split <;> exact ⟨hsame.storage, hsame.capacity⟩
    exact h.of_storage (h.twins.read out).1 (hreader _).1 (hreader _).1 (hreader _).2

/-- **One call** keeps the rings coupled, when a commit takes what was written. -/
theorem coupled_step [Inhabited T] {y : Pairing T} {call : RingCall T}
    (h : Coupled x.copied x.mapped x.pending) (htakes : CommitTakes x call)
    (hstep : pairStep x call = some y) : Coupled y.copied y.mapped y.pending := by
  have hcapacity := h.twins.capacity
  unfold pairStep at hstep
  obtain ⟨copied, hcopied, hrest⟩ := Option.bind_eq_some_iff.mp hstep
  obtain ⟨mapped, hmapped, rfl⟩ := Option.map_eq_some_iff.mp hrest
  cases call with
  | op op =>
    obtain rfl := Option.some.inj hcopied
    obtain rfl := Option.some.inj hmapped
    exact h.perform op
  | writeSlice src =>
    unfold performCall at hcopied hmapped
    dsimp only at hcopied hmapped
    split at hmapped
    · next hfits =>
      rw [hcapacity, if_pos hfits] at hcopied
      obtain rfl := Option.some.inj hcopied
      obtain rfl := Option.some.inj hmapped
      exact h.writeInto hfits
    · cases hmapped
  | writeCommit written =>
    unfold performCall at hcopied hmapped
    dsimp only at hcopied hmapped
    split at hmapped
    · next hfits =>
      rw [hcapacity, if_pos hfits] at hcopied
      obtain rfl := Option.some.inj hcopied
      obtain rfl := Option.some.inj hmapped
      exact h.writeCommitAdvance written hfits htakes
    · cases hmapped
  | readCommit count =>
    obtain rfl := Option.some.inj hcopied
    obtain rfl := Option.some.inj hmapped
    have hsame := readCommit_same x.mapped count
    exact h.of_storage (h.twins.readCommit count) (readCommit_same x.copied count).storage
      hsame.storage hsame.capacity

theorem coupled_new [Inhabited T] (size : Nat) :
    Coupled (pairing size : Pairing T).copied (pairing size : Pairing T).mapped
      (pairing size : Pairing T).pending := by
  refine ⟨rfl, framed_new true size, _, _, rfl, rfl, ?_, List.length_replicate, fun i hi => ?_⟩
  · rw [List.length_replicate, Nat.mul_comm]
    rfl
  · have hcap : i < max size.nextPowerOfTwo 1 := hi
    show (List.replicate (max size.nextPowerOfTwo 1 * 2) default)[i]? = _ ∧
      (List.replicate (max size.nextPowerOfTwo 1 * 2) default)[i + max size.nextPowerOfTwo 1]? = _
    have hlow : i < max size.nextPowerOfTwo 1 * 2 := by omega
    have hhigh : i + max size.nextPowerOfTwo 1 < max size.nextPowerOfTwo 1 * 2 := by omega
    rw [List.getElem?_replicate, List.getElem?_replicate, List.getElem?_replicate, if_pos hlow,
      if_pos hhigh, if_pos hcap]
    exact ⟨rfl, rfl⟩

/-- The copied ring takes the calls that the mapped one takes. -/
theorem pairStep_projects [Inhabited T] (call : RingCall T)
    (h : Coupled x.copied x.mapped x.pending) :
    performCall x.copied call = (pairStep x call).map Pairing.copied ∧
      performCall x.mapped call = (pairStep x call).map Pairing.mapped := by
  have hcapacity := h.twins.capacity
  unfold pairStep
  cases call with
  | op op => exact ⟨rfl, rfl⟩
  | readCommit count => exact ⟨rfl, rfl⟩
  | writeSlice src =>
    unfold performCall
    dsimp only
    rw [hcapacity]
    by_cases hfits : src.length ≤ x.mapped.capacity
    · rw [if_pos hfits, if_pos hfits]
      exact ⟨rfl, rfl⟩
    · rw [if_neg hfits, if_neg hfits]
      exact ⟨rfl, rfl⟩
  | writeCommit written =>
    unfold performCall
    dsimp only
    rw [hcapacity]
    by_cases hfits : written ≤ x.mapped.capacity
    · rw [if_pos hfits, if_pos hfits]
      exact ⟨rfl, rfl⟩
    · rw [if_neg hfits, if_neg hfits]
      exact ⟨rfl, rfl⟩

/-- Everything a reader may be shown is committed. -/
def Pairing.UnreadCommitted (x : Pairing T) : Prop :=
  ∀ p, Unread x.mapped p → x.pending (p % x.mapped.capacity) = none

theorem Coupled.agreeUnread (h : Coupled x.copied x.mapped x.pending)
    (hcommitted : x.UnreadCommitted) : AgreeUnread x.mapped x.copied :=
  fun p hp => (h.agreeAt (Nat.mod_lt p h.framed.capacity_pos) (hcommitted p hp)).1

/-- A contiguous slice of cells with nothing pending. -/
theorem Coupled.slices_alike (h : Coupled copied mapped pending) (hhead : head < mapped.capacity)
    (hcount : count ≤ mapped.capacity)
    (hcommitted : ∀ i, InRegion mapped.capacity head count i → pending i = none) :
    (copied.ring.asSlice.drop head).take count = (mapped.ring.asSlice.drop head).take count := by
  have hmod : head % mapped.capacity = head := Nat.mod_eq_of_lt hhead
  have hslice := @slice_eq T mapped.capacity mapped.ring copied.ring h.framed.capacity_pos head
    count hcount ?_
  · rw [hmod] at hslice
    exact hslice
  · intro p hp hlt
    obtain ⟨j, rfl⟩ := Nat.exists_eq_add_of_le hp
    refine (h.agreeAt (Nat.mod_lt _ h.framed.capacity_pos) (hcommitted _ ?_)).1
    have hin := (@inRegion_iff head mapped.capacity j (by omega) count).mpr (by omega)
    rw [hmod] at hin
    exact hin

/-- **The two storages cannot be told apart** in a run in which every commit takes what was written
through the slice since the write head last moved: the calls that one ring takes the other takes,
the copies of every committed cell are alike, and every slice of committed cells and every read
of them are the same over both. -/
theorem copied_like_mapped [Inhabited T] (size : Nat) (calls : List (RingCall T))
    (htakes : AllSteps pairStep CommitTakes (pairing size) calls) :
    run performCall (newUnsplit false size) calls =
        (run pairStep (pairing size) calls).map Pairing.copied ∧
      run performCall (newUnsplit true size) calls =
        (run pairStep (pairing size) calls).map Pairing.mapped ∧
      ∀ x, run pairStep (pairing size) calls = some x →
        (∀ i, i < x.copied.capacity → x.pending i = none →
          x.copied.ring.asSlice[i]? = x.copied.ring.asSlice[i + x.copied.capacity]?) ∧
        (∀ head count, head < x.copied.capacity → count ≤ x.copied.capacity →
          (∀ i, InRegion x.copied.capacity head count i → x.pending i = none) →
            (x.copied.ring.asSlice.drop head).take count =
              (x.mapped.ring.asSlice.drop head).take count) ∧
        (x.UnreadCommitted →
          (∀ requested emitUnderflow visits,
            (x.copied.takeSegments requested emitUnderflow visits).2 =
              (x.mapped.takeSegments requested emitUnderflow visits).2) ∧
          (∀ out, (x.copied.read out).2 = (x.mapped.read out).2) ∧
          x.copied.readableSlice = x.mapped.readableSlice) := by
  have hstep : ∀ (s : Pairing T) (call : RingCall T), Coupled s.copied s.mapped s.pending →
      CommitTakes s call → ∀ t, pairStep s call = some t → Coupled t.copied t.mapped t.pending :=
    fun s call hs htakes t ht => coupled_step hs htakes ht
  refine ⟨?_, ?_, fun x hx => ?_⟩
  · exact run_map_of_allSteps Pairing.copied (fun s => Coupled s.copied s.mapped s.pending)
      CommitTakes (fun s call hs _ => (pairStep_projects call hs).1) hstep (coupled_new size) htakes
  · exact run_map_of_allSteps Pairing.mapped (fun s => Coupled s.copied s.mapped s.pending)
      CommitTakes (fun s call hs _ => (pairStep_projects call hs).2) hstep (coupled_new size) htakes
  · have h : Coupled x.copied x.mapped x.pending :=
      run_invariant_of_allSteps (fun s : Pairing T => Coupled s.copied s.mapped s.pending)
        CommitTakes (fun s call t hs hcall ht => hstep s call hs hcall t ht) (coupled_new size)
        htakes hx
    have hcapacity := h.twins.capacity
    rw [hcapacity]
    refine ⟨fun i hi hpending => (h.agreeAt hi hpending).2, fun head count => h.slices_alike,
      fun hcommitted => ?_⟩
    have hagree := h.agreeUnread hcommitted
    exact ⟨fun requested emitUnderflow visits =>
      (h.twins.takeSegments requested emitUnderflow visits).2 hagree,
      fun out => (h.twins.read out).2 hagree, h.twins.readableSlice hagree⟩

/-- Three samples written through the slice behind two others, across the end of a ring of four,
and committed together. -/
theorem copied_like_mapped_wrapped :
    ∃ x : Pairing Nat, run pairStep (pairing 4)
        [.op (.writeDefault 2), .writeSlice [1, 2, 3], .writeCommit 3] = some x ∧
      x.copied.readableSlice = x.mapped.readableSlice := by
  have hseen : (run pairStep (pairing 4) [.op (.writeDefault 2), .writeSlice [1, 2, 3],
      .writeCommit 3]).map (fun x : Pairing Nat => (x.mapped.capacity, (List.range 4).map x.pending)) =
        some (4, [none, none, none, none]) := by decide +kernel
  obtain ⟨x, hx, hpending⟩ := Option.map_eq_some_iff.mp hseen
  obtain ⟨hcapacity, hnone⟩ := Prod.mk.inj hpending
  refine ⟨x, hx, (((copied_like_mapped 4 [.op (.writeDefault 2), .writeSlice [1, 2, 3],
    .writeCommit 3] ?_).2.2 x hx).2.2 ?_).2.2⟩
  · decide +kernel
  · intro p _
    have hlt : p % 4 < 4 := Nat.mod_lt p (by decide)
    have hcell := congrArg (fun cells => cells[p % 4]?) hnone
    have hall : ∀ i, i < 4 → [none, none, none, none][i]? = some (none : Option Half) := by decide
    rw [hcapacity]
    rw [hall _ hlt, List.getElem?_map, List.getElem?_range hlt] at hcell
    exact Option.some.inj hcell

/-- **A slice committed in two parts.** The second commit of two begins behind the end of the ring
and copies the older samples over those of the slice; the mapped ring keeps them. Nothing is left
uncommitted. -/
theorem split_commit_differs :
    ∃ x : Pairing Nat, run pairStep (pairing 4) [.op (.writeDefault 2), .writeSlice [1, 2, 3, 4],
        .writeCommit 2, .writeCommit 2] = some x ∧
      (List.range 4).map x.pending = [none, none, none, none] ∧
      x.copied.readableSlice = (2, [1, 2, 0, 0]) ∧ x.mapped.readableSlice = (2, [1, 2, 3, 4]) := by
  have hseen : (run pairStep (pairing 4) [.op (.writeDefault 2), .writeSlice [1, 2, 3, 4],
      .writeCommit 2, .writeCommit 2]).map (fun x : Pairing Nat =>
        ((List.range 4).map x.pending, x.copied.readableSlice, x.mapped.readableSlice)) =
      some ([none, none, none, none], (2, [1, 2, 0, 0]), (2, [1, 2, 3, 4])) := by decide +kernel
  obtain ⟨x, hx, hreads⟩ := Option.map_eq_some_iff.mp hseen
  obtain ⟨hpending, hslices⟩ := Prod.mk.inj hreads
  obtain ⟨hcopied, hmapped⟩ := Prod.mk.inj hslices
  exact ⟨x, hx, hpending, hcopied, hmapped⟩

end Catplay.Analysis.Ring
