import Catplay.Library.Run
import Catplay.Model.Tcp.BmQueue

/-!
# The write queue is a byte FIFO

What is still to be written is the buffers of the queue and then the tail (`pending`). Every call
appends to it or drains from the front of it; the slices for a vectored write are the same bytes,
whether or not two buffers lie behind one another in memory (`asIovecs_pending`).
-/

set_option autoImplicit false

namespace Catplay.Analysis.Tcp

open Catplay.Library.Run Catplay.Model.Tcp Catplay.Model.Tcp.BytesMutQueue

/-! ## Pending bytes -/

/-- The bytes that are still to be written. -/
def pending (q : BytesMutQueue) : List UInt8 := q.queue.flatMap BytesMut.bytes ++ q.tail.bytes

/-- Only the tail may be empty. -/
def Filled (q : BytesMutQueue) : Prop := ∀ b ∈ q.queue, b.bytes ≠ []

theorem isEmpty_iff (b : BytesMut) : b.isEmpty = true ↔ b.bytes = [] := List.isEmpty_iff

theorem pending_push (q : BytesMutQueue) (buf : BytesMut) :
    pending (q.push buf) = pending q ++ buf.bytes := by
  unfold BytesMutQueue.push pending
  by_cases hbuf : buf.isEmpty
  · rw [if_pos hbuf, (isEmpty_iff buf).mp hbuf, List.append_nil]
  · rw [if_neg hbuf]
    by_cases htail : q.tail.isEmpty
    · rw [htail, (isEmpty_iff q.tail).mp htail]
      simp [(isEmpty_iff q.tail).mp htail]
    · rw [Bool.not_eq_true] at htail
      rw [htail]
      simp

variable {q : BytesMutQueue} {memory : Nat → UInt8} {b : BytesMut}

theorem Filled.push (h : Filled q) (buf : BytesMut) : Filled (q.push buf) := by
  unfold BytesMutQueue.push
  by_cases hbuf : buf.isEmpty
  · rw [if_pos hbuf]
    exact h
  · rw [if_neg hbuf]
    rw [isEmpty_iff] at hbuf
    by_cases htail : q.tail.isEmpty
    · rw [htail]
      intro b hb
      rcases List.mem_append.mp hb with hb | hb
      · exact h b hb
      · rw [List.mem_singleton.mp hb]
        exact hbuf
    · rw [Bool.not_eq_true] at htail
      rw [htail]
      intro b hb
      rcases List.mem_append.mp hb with hb | hb
      · exact h b hb
      · rw [List.mem_singleton.mp hb]
        intro hnil
        rw [(isEmpty_iff q.tail).mpr hnil] at htail
        cases htail

theorem pending_write (q : BytesMutQueue) (encoded : List UInt8) (ptr capacity : Nat) :
    pending (write q encoded ptr capacity) = pending q ++ encoded := by
  unfold write pending BytesMut.extendFromSlice
  rw [List.append_assoc]

theorem pending_writeComposite (h : Filled q) (bufs : List BytesMut) :
    pending (writeComposite q bufs) = pending q ++ bufs.flatMap BytesMut.bytes ∧
      Filled (writeComposite q bufs) := by
  induction bufs generalizing q with
  | nil => exact ⟨(List.append_nil _).symm, h⟩
  | cons buf bufs ih =>
    obtain ⟨hpending, hfilled⟩ := ih (h.push buf)
    refine ⟨?_, hfilled⟩
    show pending (writeComposite (q.push buf) bufs) = _
    rw [hpending, pending_push, List.flatMap_cons, List.append_assoc]

/-! ## Draining -/

theorem length_flatMap_bytes (queue : List BytesMut) :
    (queue.flatMap BytesMut.bytes).length = (queue.map BytesMut.len).sum := by
  rw [List.length_flatMap]
  rfl

/-- **The front buffers** after a drain, and what is left to drain from the tail. -/
theorem drainFront_spec (queue : List BytesMut) (left : Nat) :
    (drainFront queue left).1.flatMap BytesMut.bytes = (queue.flatMap BytesMut.bytes).drop left ∧
      (drainFront queue left).2 = left - (queue.flatMap BytesMut.bytes).length ∧
      ((drainFront queue left).2 ≠ 0 → (drainFront queue left).1 = []) ∧
      ((∀ b ∈ queue, b.bytes ≠ []) → ∀ b ∈ (drainFront queue left).1, b.bytes ≠ []) := by
  induction queue generalizing left with
  | nil =>
    cases left with
    | zero => exact ⟨rfl, rfl, fun h => absurd rfl h, fun h => h⟩
    | succ left => exact ⟨rfl, rfl, fun _ => rfl, fun h => h⟩
  | cons front queue ih =>
    cases left with
    | zero =>
      refine ⟨rfl, ?_, fun h => absurd rfl h, fun h => h⟩
      show 0 = 0 - _
      omega
    | succ left =>
      have hstep : drainFront (front :: queue) (left + 1) =
          if front.len ≤ left + 1 then drainFront queue (left + 1 - front.len)
          else (front.advance (left + 1) :: queue, 0) := rfl
      rw [List.flatMap_cons, List.length_append, hstep]
      by_cases hfront : front.len ≤ left + 1
      · obtain ⟨hbytes, hleft, hnil, hfilled⟩ := ih (left + 1 - front.len)
        rw [if_pos hfront]
        refine ⟨?_, ?_, hnil, fun h => hfilled fun b hb => h b (List.mem_cons_of_mem _ hb)⟩
        · have hall : front.bytes.drop (left + 1) = [] := List.drop_eq_nil_of_le hfront
          rw [hbytes, List.drop_append, hall]
          rfl
        · rw [hleft]
          unfold BytesMut.len
          omega
      · have hlt : left + 1 < front.bytes.length := by
          unfold BytesMut.len at hfront
          omega
        rw [if_neg hfront]
        refine ⟨?_, ?_, fun h => absurd rfl h, fun h b hb => ?_⟩
        · rw [List.flatMap_cons, List.drop_append_of_le_length (by omega)]
          rfl
        · show 0 = _
          omega
        · rcases List.mem_cons.mp hb with rfl | hb
          · show front.bytes.drop (left + 1) ≠ []
            intro hnil
            rw [List.drop_eq_nil_iff] at hnil
            omega
          · exact h b (List.mem_cons_of_mem _ hb)

/-- **Shrinking** drops no byte. -/
theorem pending_shrink (q : BytesMutQueue) (fresh : Nat) :
    pending (q.shrinkEmptyTailIfNeeded fresh) = pending q ∧
      (q.shrinkEmptyTailIfNeeded fresh).queue = q.queue := by
  unfold shrinkEmptyTailIfNeeded
  by_cases hshrinks : q.tail.isEmpty ∧ q.tail.capacity > q.policy.shrinkThreshold
  · rw [if_pos hshrinks]
    refine ⟨?_, rfl⟩
    unfold pending
    rw [(isEmpty_iff q.tail).mp hshrinks.1]
    rfl
  · rw [if_neg hshrinks]
    exact ⟨rfl, rfl⟩

/-- **A drain** takes so many bytes off the front. -/
theorem pending_drainWritten (q : BytesMutQueue) (bytes fresh : Nat) :
    pending (q.drainWritten bytes fresh) = (pending q).drop bytes ∧
      (Filled q → Filled (q.drainWritten bytes fresh)) := by
  obtain ⟨hbytes, hleft, hnil, hfilled⟩ := drainFront_spec q.queue bytes
  unfold drainWritten
  dsimp only
  generalize drainFront q.queue bytes = drained at hbytes hleft hnil hfilled
  obtain ⟨queue, left⟩ := drained
  dsimp only at hbytes hleft hnil hfilled ⊢
  have hpending : (pending q).drop bytes = queue.flatMap BytesMut.bytes ++ q.tail.bytes.drop left := by
    unfold pending
    rw [List.drop_append, hbytes, hleft]
  rw [hpending]
  by_cases hdone : left = 0 ∨ q.tail.isEmpty
  · rw [if_pos hdone]
    obtain ⟨hshrunk, hqueue⟩ := pending_shrink { q with queue } fresh
    refine ⟨?_, fun h b hb => ?_⟩
    · rw [hshrunk]
      unfold pending
      rcases hdone with rfl | hempty
      · rfl
      · rw [(isEmpty_iff q.tail).mp hempty, List.drop_nil]
    · rw [hqueue] at hb
      exact hfilled h b hb
  · rw [if_neg hdone]
    obtain ⟨hshrunk, hqueue⟩ := pending_shrink { q with
      queue
      tail := if left ≥ q.tail.len then q.tail.clear else q.tail.advance left } fresh
    refine ⟨?_, fun h b hb => ?_⟩
    · rw [hshrunk]
      unfold pending
      dsimp only
      congr 1
      split
      · next hall =>
        exact (List.drop_eq_nil_of_le hall).symm
      · rfl
    · rw [hqueue] at hb
      exact hfilled h b hb

/-! ## The slices of a vectored write -/

/-- Every buffer lies in memory at its address. -/
structure Stored (memory : Nat → UInt8) (q : BytesMutQueue) : Prop where
  queue : ∀ b ∈ q.queue, IoSlice.read memory ⟨b.ptr, b.len⟩ = b.bytes
  tail : IoSlice.read memory ⟨q.tail.ptr, q.tail.len⟩ = q.tail.bytes

/-- The bytes of the slices so far. -/
def spanned (memory : Nat → UInt8) (state : Option IoSlice × List IoSlice) : List UInt8 :=
  (state.2 ++ state.1.toList).flatMap (IoSlice.read memory)

theorem read_add (memory : Nat → UInt8) (ptr len more : Nat) :
    IoSlice.read memory ⟨ptr, len + more⟩ =
      IoSlice.read memory ⟨ptr, len⟩ ++ IoSlice.read memory ⟨ptr + len, more⟩ := by
  unfold IoSlice.read
  dsimp only
  rw [← List.map_append, List.range'_append_1]

/-- **One span** adds its bytes, merged or not. -/
theorem spanned_pushSpan (memory : Nat → UInt8) (state : Option IoSlice × List IoSlice)
    (ptr len : Nat) :
    spanned memory (pushSpan state ptr len) =
      spanned memory state ++ IoSlice.read memory ⟨ptr, len⟩ := by
  obtain ⟨cur, out⟩ := state
  unfold pushSpan
  by_cases hlen : len = 0
  · rw [if_pos hlen, hlen]
    exact (List.append_nil _).symm
  · rw [if_neg hlen]
    unfold spanned
    cases cur with
    | none => simp
    | some cur =>
      dsimp only
      by_cases hbehind : cur.ptr + cur.len = ptr
      · rw [if_pos hbehind, ← hbehind]
        simp [read_add]
      · rw [if_neg hbehind]
        simp

theorem spanned_foldl {queue : List BytesMut}
    (h : ∀ b ∈ queue, IoSlice.read memory ⟨b.ptr, b.len⟩ = b.bytes)
    (state : Option IoSlice × List IoSlice) :
    spanned memory (queue.foldl (fun state b => pushSpan state b.ptr b.len) state) =
      spanned memory state ++ queue.flatMap BytesMut.bytes := by
  induction queue generalizing state with
  | nil => exact (List.append_nil _).symm
  | cons b queue ih =>
    rw [List.foldl_cons, ih fun b hb => h b (List.mem_cons_of_mem _ hb), spanned_pushSpan,
      h b List.mem_cons_self, List.flatMap_cons, List.append_assoc]

/-- **The slices** are the pending bytes. -/
theorem asIovecs_pending (h : Stored memory q) :
    q.asIovecs.flatMap (IoSlice.read memory) = pending q := by
  unfold asIovecs pending
  by_cases hempty : q.isEmpty
  · rw [if_pos hempty]
    unfold BytesMutQueue.isEmpty at hempty
    rw [Bool.and_eq_true, List.isEmpty_iff, isEmpty_iff] at hempty
    rw [hempty.1, hempty.2]
    rfl
  · rw [if_neg hempty]
    have hqueue := spanned_foldl h.queue (none, [])
    have htail : spanned memory (if !q.tail.isEmpty then
        pushSpan (q.queue.foldl (fun state b => pushSpan state b.ptr b.len) (none, []))
          q.tail.ptr q.tail.len
        else q.queue.foldl (fun state b => pushSpan state b.ptr b.len) (none, [])) =
          q.queue.flatMap BytesMut.bytes ++ q.tail.bytes := by
      by_cases htail : q.tail.isEmpty
      · rw [htail, (isEmpty_iff q.tail).mp htail]
        exact hqueue.trans (List.append_nil _).symm
      · rw [Bool.not_eq_true] at htail
        rw [htail]
        show spanned memory (pushSpan _ _ _) = _
        rw [spanned_pushSpan, hqueue, h.tail]
        rfl
    dsimp only
    rw [← htail]
    generalize (if !q.tail.isEmpty then
        pushSpan (q.queue.foldl (fun state b => pushSpan state b.ptr b.len) (none, []))
          q.tail.ptr q.tail.len
        else q.queue.foldl (fun state b => pushSpan state b.ptr b.len) (none, [])) = state
    obtain ⟨cur, out⟩ := state
    cases cur with
    | none => simp [spanned]
    | some cur => rfl

/-! ## What a caller sees -/

theorem isEmpty_pending (h : Filled q) :
    q.isEmpty = true ↔ pending q = [] := by
  unfold BytesMutQueue.isEmpty pending
  rw [Bool.and_eq_true, List.isEmpty_iff, isEmpty_iff, List.append_eq_nil_iff]
  refine and_congr_left fun _ => ⟨fun hnil => by rw [hnil]; rfl, fun hnil => ?_⟩
  cases hqueue : q.queue with
  | nil => rfl
  | cons b queue =>
    rw [hqueue, List.flatMap_cons, List.append_eq_nil_iff] at hnil
    exact absurd hnil.1 (h b (by rw [hqueue]; exact List.mem_cons_self))

theorem len_eq_zero_iff (q : BytesMutQueue) : q.len = 0 ↔ q.isEmpty = true := by
  unfold BytesMutQueue.len BytesMutQueue.isEmpty
  rw [Bool.and_eq_true, List.isEmpty_iff, Nat.add_eq_zero_iff, List.length_eq_zero_iff]
  by_cases htail : q.tail.isEmpty <;> simp [htail]

theorem queuedBytes_pending (q : BytesMutQueue) : q.queuedBytes = (pending q).length := by
  unfold queuedBytes pending
  rw [List.length_append, length_flatMap_bytes]
  rfl

/-- **The first buffer** is a front part of the pending bytes: all of them when there is no
other, and empty only when nothing is pending. -/
theorem first_pending (h : Filled q) :
    (q.first = none ↔ pending q = []) ∧
      ∀ bytes, q.first = some bytes →
        bytes ≠ [] ∧ bytes <+: pending q ∧ (q.len = 1 → bytes = pending q) := by
  unfold BytesMutQueue.first pending BytesMutQueue.len
  cases hqueue : q.queue with
  | nil =>
    by_cases htail : q.tail.isEmpty
    · rw [htail, (isEmpty_iff q.tail).mp htail]
      refine ⟨⟨fun _ => rfl, fun _ => rfl⟩, fun bytes hbytes => ?_⟩
      cases hbytes
    · have hnil := (not_congr (isEmpty_iff q.tail)).mp htail
      rw [Bool.not_eq_true] at htail
      rw [htail]
      refine ⟨⟨fun hnone => (by cases hnone), fun hempty => absurd hempty hnil⟩, ?_⟩
      intro bytes hbytes
      obtain rfl := Option.some.inj hbytes
      exact ⟨hnil, List.prefix_rfl, fun _ => rfl⟩
  | cons front queue =>
    have hfront : front.bytes ≠ [] := h front (by rw [hqueue]; exact List.mem_cons_self)
    dsimp only
    rw [List.flatMap_cons, List.append_assoc]
    refine ⟨⟨fun hnone => (by cases hnone), fun hempty => ?_⟩, fun bytes hbytes => ?_⟩
    · exact absurd (List.append_eq_nil_iff.mp hempty).1 hfront
    · obtain rfl := Option.some.inj hbytes
      refine ⟨hfront, List.prefix_append _ _, fun hlen => ?_⟩
      rw [List.length_cons] at hlen
      have hrest : queue = [] := List.length_eq_zero_iff.mp (by omega)
      have htail : q.tail.isEmpty = true := by
        by_contra hnot
        rw [if_neg hnot] at hlen
        omega
      rw [hrest, (isEmpty_iff q.tail).mp htail]
      exact (List.append_nil _).symm

/-- **What is offered** to the socket is a front part of the pending bytes. -/
theorem offered_prefix (h : Filled q)
    (hstored : Stored memory q) : offered memory q <+: pending q := by
  unfold offered
  split
  · cases hfirst : q.first with
    | none => exact List.nil_prefix
    | some bytes => exact ((first_pending h).2 bytes hfirst).2.1
  · have hall := asIovecs_pending hstored
    exact hall ▸ List.prefix_rfl

/-! ## Memory under a drain -/

/-- A buffer that lies at its address. -/
def AtAddress (memory : Nat → UInt8) (b : BytesMut) : Prop :=
  IoSlice.read memory ⟨b.ptr, b.len⟩ = b.bytes

theorem AtAddress.advance (h : AtAddress memory b)
    (count : Nat) : AtAddress memory (b.advance count) := by
  unfold AtAddress BytesMut.len IoSlice.read at *
  dsimp only [BytesMut.advance] at *
  rw [← h, ← List.map_drop]
  congr 1
  rw [List.drop_range', List.length_map, List.length_range', Nat.mul_one]

theorem atAddress_nil (h : b.bytes = []) :
    AtAddress memory b := by
  unfold AtAddress BytesMut.len
  rw [h]
  rfl

theorem drainFront_mem {queue : List BytesMut} {left : Nat}
    (hb : b ∈ (drainFront queue left).1) : b ∈ queue ∨ ∃ b' ∈ queue, ∃ n, b = b'.advance n := by
  induction queue generalizing left with
  | nil =>
    cases left <;> cases hb
  | cons front queue ih =>
    cases left with
    | zero => exact Or.inl hb
    | succ left =>
      have hstep : drainFront (front :: queue) (left + 1) =
          if front.len ≤ left + 1 then drainFront queue (left + 1 - front.len)
          else (front.advance (left + 1) :: queue, 0) := rfl
      rw [hstep] at hb
      split at hb
      · rcases ih hb with hin | ⟨b', hin, n, rfl⟩
        · exact Or.inl (List.mem_cons_of_mem _ hin)
        · exact Or.inr ⟨b', List.mem_cons_of_mem _ hin, n, rfl⟩
      · rcases List.mem_cons.mp hb with rfl | hin
        · exact Or.inr ⟨front, List.mem_cons_self, left + 1, rfl⟩
        · exact Or.inl (List.mem_cons_of_mem _ hin)

/-- **A drain** moves no byte. -/
theorem Stored.drainWritten (h : Stored memory q)
    (bytes fresh : Nat) : Stored memory (q.drainWritten bytes fresh) := by
  have hshrink : ∀ q : BytesMutQueue, (∀ b ∈ q.queue, AtAddress memory b) →
      AtAddress memory q.tail → Stored memory (q.shrinkEmptyTailIfNeeded fresh) := by
    intro q hqueue htail
    unfold shrinkEmptyTailIfNeeded
    split
    · exact ⟨hqueue, atAddress_nil rfl⟩
    · exact ⟨hqueue, htail⟩
  have hdrained : ∀ b ∈ (drainFront q.queue bytes).1, AtAddress memory b := by
    intro b hb
    rcases drainFront_mem hb with hin | ⟨b', hin, n, rfl⟩
    · exact h.queue b hin
    · exact AtAddress.advance (h.queue b' hin) n
  unfold BytesMutQueue.drainWritten
  dsimp only
  split
  · exact hshrink _ hdrained h.tail
  · apply hshrink _ hdrained
    dsimp only
    split
    · exact atAddress_nil rfl
    · exact AtAddress.advance h.tail _

/-! ## Runs -/

/-- What a session does with its queue. -/
inductive QueueCall
  /-- The codec encodes into the tail, which may be moved. -/
  | write (encoded : List UInt8) (ptr capacity : Nat)
  | writeComposite (bufs : List BytesMut)
  | drainWritten (n fresh : Nat)
  /-- `flush_queue`, with what is in memory and the answers of the socket. -/
  | flushQueue (memory : Nat → UInt8) (fresh : Nat) (answers : List Written)

/-- The stream, with the bytes that were appended to it. -/
structure History where
  stream : Stream
  appended : List UInt8
  deriving DecidableEq, Repr

def History.new : History := ⟨⟨.new, []⟩, []⟩

/-- At most the queued bytes are drained. -/
def queueStep (s : History) : QueueCall → Option History
  | .write encoded ptr capacity =>
    some ⟨{ s.stream with composites := write s.stream.composites encoded ptr capacity },
      s.appended ++ encoded⟩
  | .writeComposite bufs =>
    some ⟨{ s.stream with composites := writeComposite s.stream.composites bufs },
      s.appended ++ bufs.flatMap BytesMut.bytes⟩
  | .drainWritten n fresh =>
    if n ≤ s.stream.composites.queuedBytes then
      some ⟨⟨s.stream.composites.drainWritten n fresh,
        s.stream.sent ++ (pending s.stream.composites).take n⟩, s.appended⟩
    else none
  | .flushQueue memory fresh answers =>
    (flushQueue memory fresh s.stream answers).map fun result => ⟨result.1, s.appended⟩

/-- The memory of a flush has every buffer at its address. -/
def InMemory (s : History) : QueueCall → Prop
  | .flushQueue memory _ _ => Stored memory s.stream.composites
  | _ => True

/-- **The invariant.** What was sent and what is pending are what was appended. -/
structure Fifo (s : History) : Prop where
  filled : Filled s.stream.composites
  bytes : s.stream.sent ++ pending s.stream.composites = s.appended

theorem fifo_new : Fifo .new :=
  ⟨fun b hb => (by cases hb), rfl⟩

/-- **A flush** sends a front part of what is pending and drains it. -/
theorem flushQueue_fifo {fresh : Nat} (answers : List Written)
    {stream stream' : Stream} {appended : List UInt8} {ok : Bool} (h : Fifo ⟨stream, appended⟩)
    (hstored : Stored memory stream.composites)
    (hflush : flushQueue memory fresh stream answers = some (stream', ok)) :
    Fifo ⟨stream', appended⟩ := by
  induction answers generalizing stream with
  | nil =>
    obtain ⟨rfl, -⟩ := Prod.mk.inj (Option.some.inj hflush)
    exact h
  | cons answer answers ih =>
    have hstop : ∀ ok', some (stream, ok') = some (stream', ok) → Fifo ⟨stream', appended⟩ := by
      intro ok' heq
      obtain ⟨rfl, -⟩ := Prod.mk.inj (Option.some.inj heq)
      exact h
    unfold flushQueue at hflush
    by_cases hempty : stream.composites.isEmpty
    · rw [if_pos hempty] at hflush
      exact hstop _ hflush
    · rw [if_neg hempty] at hflush
      cases answer with
      | ok n =>
        dsimp only at hflush
        by_cases hmore : n > (offered memory stream.composites).length
        · rw [if_pos hmore] at hflush
          cases hflush
        · rw [if_neg hmore] at hflush
          by_cases hsome : n > 0
          · rw [if_pos hsome] at hflush
            refine ih ?_ (hstored.drainWritten n fresh) hflush
            obtain ⟨hpending, hfilled⟩ := pending_drainWritten stream.composites n fresh
            refine ⟨hfilled h.filled, ?_⟩
            obtain ⟨rest, hrest⟩ := offered_prefix h.filled hstored
            have htake : (offered memory stream.composites).take n =
                (pending stream.composites).take n := by
              rw [← hrest, List.take_append_of_le_length (Nat.le_of_not_lt hmore)]
            show (stream.sent ++ _) ++ pending (stream.composites.drainWritten n fresh) = appended
            rw [hpending, htake, List.append_assoc, List.take_append_drop]
            exact h.bytes
          · rw [if_neg hsome] at hflush
            exact hstop _ hflush
      | wouldBlock => exact hstop _ hflush
      | error => exact hstop _ hflush

/-- **One call** keeps the order. -/
theorem fifo_step {s s' : History} {call : QueueCall} (h : Fifo s) (hin : InMemory s call)
    (hstep : queueStep s call = some s') : Fifo s' := by
  cases call with
  | write encoded ptr capacity =>
    obtain rfl := Option.some.inj hstep
    refine ⟨h.filled, ?_⟩
    show s.stream.sent ++ pending (write s.stream.composites encoded ptr capacity) = _
    rw [pending_write, ← List.append_assoc, h.bytes]
  | writeComposite bufs =>
    obtain rfl := Option.some.inj hstep
    obtain ⟨hpending, hfilled⟩ := pending_writeComposite h.filled bufs
    refine ⟨hfilled, ?_⟩
    show s.stream.sent ++ pending (writeComposite s.stream.composites bufs) = _
    rw [hpending, ← List.append_assoc, h.bytes]
  | drainWritten n fresh =>
    unfold queueStep at hstep
    dsimp only at hstep
    split at hstep
    · obtain rfl := Option.some.inj hstep
      obtain ⟨hpending, hfilled⟩ := pending_drainWritten s.stream.composites n fresh
      refine ⟨hfilled h.filled, ?_⟩
      show (s.stream.sent ++ _) ++ pending (s.stream.composites.drainWritten n fresh) = _
      rw [hpending, List.append_assoc, List.take_append_drop, h.bytes]
    · cases hstep
  | flushQueue memory fresh answers =>
    obtain ⟨⟨stream, ok⟩, hflush, rfl⟩ := Option.map_eq_some_iff.mp hstep
    exact flushQueue_fifo answers h hin hflush

/-- **The write queue is a byte FIFO.** After every run what was sent, followed by the slices for a
vectored write, is what was appended, in order; the first buffer is a front part of the slices, the
counts agree with them, and neither a drain nor shrinking the tail loses a byte. -/
theorem write_queue_fifo (calls : List QueueCall) (s : History)
    (hrun : run queueStep .new calls = some s) (hmemory : AllSteps queueStep InMemory .new calls)
    (memory : Nat → UInt8) (hstored : Stored memory s.stream.composites) :
    let q := s.stream.composites
    let slices := q.asIovecs.flatMap (IoSlice.read memory)
    s.stream.sent ++ slices = s.appended ∧
      (q.first = none ↔ slices = []) ∧
      (∀ bytes, q.first = some bytes →
        bytes ≠ [] ∧ bytes <+: slices ∧ (q.len = 1 → bytes = slices)) ∧
      q.queuedBytes = slices.length ∧ (q.isEmpty = true ↔ slices = []) ∧
      (q.len = 0 ↔ q.isEmpty = true) ∧
      (∀ n fresh, (q.drainWritten n fresh).asIovecs.flatMap (IoSlice.read memory) =
        slices.drop n) ∧
      ∀ fresh, pending (q.shrinkEmptyTailIfNeeded fresh) = slices := by
  have h : Fifo s := run_invariant_of_allSteps Fifo InMemory
    (fun _ _ _ h hin hstep => fifo_step h hin hstep) fifo_new hmemory hrun
  dsimp only
  rw [asIovecs_pending hstored]
  obtain ⟨hnone, hfirst⟩ := first_pending h.filled
  refine ⟨h.bytes, hnone, hfirst, queuedBytes_pending _, isEmpty_pending h.filled,
    len_eq_zero_iff _, fun n fresh => ?_, fun fresh => (pending_shrink _ fresh).1⟩
  rw [asIovecs_pending (hstored.drainWritten n fresh)]
  exact (pending_drainWritten _ n fresh).1

/-- A tail and two pushed buffers that lie behind one another, drained into the second. -/
theorem write_queue_fifo_partial :
    let q : BytesMutQueue := ⟨[⟨103, [4], 1⟩], ⟨200, [5, 6], 64⟩, .default⟩
    let memory : Nat → UInt8 := fun address =>
      if address = 103 then 4 else if address = 200 then 5 else 6
    [1, 2, 3] ++ q.asIovecs.flatMap (IoSlice.read memory) = [1, 2, 3, 4, 5, 6] := by
  have h := write_queue_fifo [.write [1, 2] 100 64, .writeComposite [⟨102, [3, 4], 2⟩, ⟨1, [], 0⟩],
      .drainWritten 3 0, .writeComposite [⟨200, [5, 6], 64⟩]]
    ⟨⟨⟨[⟨103, [4], 1⟩], ⟨200, [5, 6], 64⟩, .default⟩, [1, 2, 3]⟩, [1, 2, 3, 4, 5, 6]⟩ (by decide)
    ⟨trivial, fun _ _ => ⟨trivial, fun _ _ => ⟨trivial, fun _ _ => ⟨trivial, fun _ _ => trivial⟩⟩⟩⟩
    (fun address => if address = 103 then 4 else if address = 200 then 5 else 6)
    ⟨by decide, by decide⟩
  exact h.1

end Catplay.Analysis.Tcp
