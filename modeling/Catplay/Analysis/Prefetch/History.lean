import Catplay.Library.Run
import Catplay.Model.Prefetch.Prefetch

/-!
# The prefetch over a run

What the consumer takes from the cache, and what an observer writes down of a run.
-/

set_option autoImplicit false

/-!
## What the consumer takes from the cache

When every queued chunk holds the keystream of its own positions, the pieces that `takeCached`
cuts from the queue are the keystream from the cursor on (`takeCached_spec`), and counting the
bytes ahead of the consumer anew never gives more than before (`readyBytes_le`).
-/

namespace Catplay.Analysis.Prefetch

open Catplay.Library.Keystream Catplay.Model.Prefetch

/-- The chunk holds the keystream of its own positions. -/
def HoldsKeystream (f : Nat → UInt8) (chunk : Chunk) : Prop :=
  chunk.bytes = window f chunk.position chunk.bytes.length

/-- The pieces put the keystream from `cursor` on the first `len` bytes of any data. -/
def PiecesCover (f : Nat → UInt8) (pieces : List Piece) (cursor len : Nat) : Prop :=
  ∀ data : List UInt8, len ≤ data.length →
    xorPieces pieces data = xorBytes (data.take len) (window f cursor len) ++ data.drop len

theorem piecesCover_nil (f : Nat → UInt8) (cursor : Nat) : PiecesCover f [] cursor 0 := by
  intro data _
  simp [xorPieces, xorBytes]

theorem PiecesCover.cons {f : Nat → UInt8} {chunk : Chunk} (hchunk : HoldsKeystream f chunk)
    {pieces : List Piece} {cursor n m : Nat} (hfrom : chunk.position ≤ cursor)
    (hto : cursor + n ≤ chunk.chunkEnd) (h : PiecesCover f pieces (cursor + n) m) :
    PiecesCover f ({ bytes := chunk.bytes, start := cursor - chunk.position, len := n } :: pieces)
      cursor (n + m) := by
  intro data hlen
  unfold Chunk.chunkEnd at hto
  have hkey : (chunk.bytes.drop (cursor - chunk.position)).take n = window f cursor n := by
    rw [hchunk, take_drop_window f chunk.position (by omega),
      show chunk.position + (cursor - chunk.position) = cursor by omega]
  have hrest := h (data.drop n) (by rw [List.length_drop]; omega)
  show xorBytes (data.take n) ((chunk.bytes.drop (cursor - chunk.position)).take n) ++
    xorPieces pieces (data.drop n) = _
  rw [hkey, hrest, List.take_add, window_add, List.drop_drop, ← List.append_assoc]
  congr 1
  unfold xorBytes
  rw [List.zipWith_append (by rw [List.length_take, length_window]; omega)]

/-- **What is taken.** The cursor moves towards `stop`, the pieces are the keystream on its
way, and what stays queued is the back of the queue. -/
theorem takeCached_spec {f : Nat → UInt8} {stop : Nat} {chunks : List Chunk} {cursor : Nat}
    (hchunks : ∀ chunk ∈ chunks, HoldsKeystream f chunk) (hcursor : cursor ≤ stop) :
    cursor ≤ (takeCached stop chunks cursor).2.2 ∧
      (takeCached stop chunks cursor).2.2 ≤ stop ∧
      PiecesCover f (takeCached stop chunks cursor).1 cursor
        ((takeCached stop chunks cursor).2.2 - cursor) ∧
      (takeCached stop chunks cursor).2.1 <:+ chunks := by
  induction chunks generalizing cursor with
  | nil =>
    simp only [takeCached, Nat.sub_self]
    exact ⟨Nat.le_refl _, hcursor, piecesCover_nil f cursor, List.suffix_refl _⟩
  | cons chunk chunks ih =>
    have hhead := hchunks chunk List.mem_cons_self
    have htail := fun c hc => hchunks c (List.mem_cons_of_mem chunk hc)
    unfold takeCached
    dsimp only
    by_cases hbehind : chunk.chunkEnd ≤ cursor
    · rw [if_pos hbehind]
      obtain ⟨hge, hle, hcover, hsuffix⟩ := ih htail hcursor
      exact ⟨hge, hle, hcover, hsuffix.trans (List.suffix_cons chunk chunks)⟩
    rw [if_neg hbehind]
    by_cases hstop : chunk.position > cursor ∨ cursor = stop
    · rw [if_pos hstop]
      simp only [Nat.sub_self]
      exact ⟨Nat.le_refl _, hcursor, piecesCover_nil f cursor, List.suffix_refl _⟩
    rw [if_neg hstop]
    by_cases hwhole : cursor + min (chunk.chunkEnd - cursor) (stop - cursor) = chunk.chunkEnd
    · rw [if_pos hwhole]
      dsimp only
      obtain ⟨hge, hle, hcover, hsuffix⟩ :=
        ih htail (show cursor + min (chunk.chunkEnd - cursor) (stop - cursor) ≤ stop by omega)
      refine ⟨by omega, hle, ?_, hsuffix.trans (List.suffix_cons chunk chunks)⟩
      have hcons := hcover.cons hhead (by omega) (by omega)
      rw [show min (chunk.chunkEnd - cursor) (stop - cursor) +
        ((takeCached stop chunks
            (cursor + min (chunk.chunkEnd - cursor) (stop - cursor))).2.2 -
          (cursor + min (chunk.chunkEnd - cursor) (stop - cursor))) =
        (takeCached stop chunks
            (cursor + min (chunk.chunkEnd - cursor) (stop - cursor))).2.2 - cursor by omega]
        at hcons
      exact hcons
    · rw [if_neg hwhole]
      dsimp only
      refine ⟨by omega, by omega, ?_, List.suffix_refl _⟩
      have hcons := (piecesCover_nil f
        (cursor + min (chunk.chunkEnd - cursor) (stop - cursor))).cons hhead (by omega) (by omega)
      rw [Nat.add_zero] at hcons
      rw [Nat.add_sub_cancel_left]
      exact hcons

/-! ### The bytes ahead of the consumer -/

def readyBytes (consumed : Nat) (chunks : List Chunk) : Nat :=
  (chunks.map (Chunk.ready consumed)).sum

@[simp] theorem readyBytes_nil (consumed : Nat) : readyBytes consumed [] = 0 := rfl

theorem readyBytes_append (consumed : Nat) (front back : List Chunk) :
    readyBytes consumed (front ++ back) = readyBytes consumed front + readyBytes consumed back := by
  unfold readyBytes
  rw [List.map_append, List.sum_append]

theorem readyBytes_anti (chunks : List Chunk) {consumed later : Nat} (h : consumed ≤ later) :
    readyBytes later chunks ≤ readyBytes consumed chunks := by
  induction chunks with
  | nil => exact Nat.le_refl _
  | cons chunk chunks ih =>
    have hchunk : chunk.ready later ≤ chunk.ready consumed := by
      unfold Chunk.ready
      omega
    unfold readyBytes at ih ⊢
    rw [List.map_cons, List.map_cons, List.sum_cons, List.sum_cons]
    omega

/-- **Never more.** The back of the queue, counted from a later position. -/
theorem readyBytes_le {rest chunks : List Chunk} (hrest : rest <:+ chunks) {consumed later : Nat}
    (h : consumed ≤ later) : readyBytes later rest ≤ readyBytes consumed chunks := by
  obtain ⟨front, rfl⟩ := hrest
  have := readyBytes_anti rest h
  rw [readyBytes_append]
  omega

end Catplay.Analysis.Prefetch

/-!
## What a run of the prefetch has done

`Tracked` carries beside the prefetch what an observer writes down and no step reads: how often
queued work was discarded, at which of these epochs each queued chunk was asked for, what was
in force when the consumer called, and what its calls gave. A run with history is a run of the
prefetch (`run_prefetch`).
-/

namespace Catplay.Analysis.Prefetch

open Catplay.Library.Keystream Catplay.Library.Run Catplay.Model.Prefetch

variable {P : Type}

/-- The epoch of the state, of the job that the worker holds, and of the queued chunks. -/
structure Epochs where
  current : Nat
  taken : Nat
  chunks : List Nat
  deriving DecidableEq, Repr

/-- Chunks leave at the front and come at the back, one for the job that was held. -/
def Epochs.observe (self : Epochs) (before after : State P) (takes : Bool) : Epochs where
  current := if after.generation = before.generation then self.current else self.current + 1
  taken := if takes then self.current else self.taken
  chunks := self.chunks.drop (before.chunks.length - after.chunks.length) ++
    List.replicate (after.chunks.length - before.chunks.length) self.taken

/-- A call of the consumer with what was in force. `next` says that the prefetch chose nonce
and offset, and `follows` where the calls to `apply_next` before it had come to. -/
structure Request (P : Type) where
  provider : P
  nonce : UInt64
  offset : Nat
  data : List UInt8
  next : Bool
  follows : Option Nat
  deriving DecidableEq, Repr

structure Applied (P : Type) where
  request : Request P
  output : List UInt8
  deriving DecidableEq, Repr

structure Tracked (P : Type) where
  prefetch : KeystreamPrefetch P
  epochs : Epochs
  request : Option (Request P)
  leftOff : Option Nat
  log : List (Applied P)

namespace Tracked

def new (prefetch : KeystreamPrefetch P) : Tracked P where
  prefetch
  epochs := { current := 0, taken := 0, chunks := [] }
  request := none
  leftOff := none
  log := []

/-- The request that a step makes. -/
def requestOf (self : Tracked P) (action : Action P) : Option (Request P) :=
  let state := self.prefetch.state
  match action with
  | .apply nonce offset data =>
    some { provider := state.provider, nonce, offset, data, next := false, follows := none }
  | .applyNext data =>
    some
      { provider := state.provider
        nonce := state.nonce
        offset := state.consumed
        data
        next := true
        follows := self.leftOff }
  | _ => self.request

/-- A call at a place of its own, or a new start, breaks the sequence of `apply_next`. -/
def leftOffAt (self : Tracked P) (action : Action P) : Option Nat :=
  match action with
  | .apply _ _ _ => none
  | .reset _ _ _ _ => none
  | _ => self.leftOff

def takes : Action P → Bool
  | .takeJob => true
  | _ => false

def observe (self : Tracked P) (action : Action P) (now : KeystreamPrefetch P)
    (reply : Option Reply) : Tracked P :=
  let epochs := self.epochs.observe self.prefetch.state now.state (takes action)
  match self.requestOf action, reply with
  | some request, some (.applied (.ok (output, _))) =>
    { prefetch := now
      epochs
      request := none
      leftOff := if request.next then some (request.offset + request.data.length)
        else self.leftOffAt action
      log := self.log ++ [{ request, output }] }
  | some request, some (.applied (.error _)) =>
    { prefetch := now
      epochs
      request := none
      leftOff := if request.next then some request.offset else self.leftOffAt action
      log := self.log }
  | request, _ =>
    { prefetch := now, epochs, request, leftOff := self.leftOffAt action, log := self.log }

def step (ks : P → UInt64 → Nat → UInt8) (self : Tracked P) (action : Action P) :
    Option (Tracked P) :=
  (self.prefetch.step ks action).map fun (now, reply) => self.observe action now reply

@[simp] theorem observe_prefetch (self : Tracked P) (action : Action P)
    (now : KeystreamPrefetch P) (reply : Option Reply) :
    (self.observe action now reply).prefetch = now := by
  unfold observe
  dsimp only
  split <;> rfl

@[simp] theorem observe_epochs (self : Tracked P) (action : Action P)
    (now : KeystreamPrefetch P) (reply : Option Reply) :
    (self.observe action now reply).epochs =
      self.epochs.observe self.prefetch.state now.state (takes action) := by
  unfold observe
  dsimp only
  split <;> rfl

/-- A step that ends no call. -/
theorem observe_quiet (self : Tracked P) {action : Action P} {now : KeystreamPrefetch P}
    {reply : Option Reply} (h : ∀ result, reply ≠ some (.applied result)) :
    self.observe action now reply =
      { prefetch := now
        epochs := self.epochs.observe self.prefetch.state now.state (takes action)
        request := self.requestOf action
        leftOff := self.leftOffAt action
        log := self.log } := by
  unfold observe
  dsimp only
  split
  next => exact absurd rfl (h _)
  next => exact absurd rfl (h _)
  next => rfl

theorem step_eq_some {ks : P → UInt64 → Nat → UInt8} {s t : Tracked P} {action : Action P} :
    s.step ks action = some t ↔
      ∃ now reply, s.prefetch.step ks action = some (now, reply) ∧
        s.observe action now reply = t := by
  unfold step
  rw [Option.map_eq_some_iff]
  constructor
  · rintro ⟨⟨now, reply⟩, hstep, rfl⟩
    exact ⟨now, reply, hstep, rfl⟩
  · rintro ⟨now, reply, hstep, rfl⟩
    exact ⟨(now, reply), hstep, rfl⟩

/-- **Projection.** What an observer writes down changes no run. -/
theorem run_prefetch {ks : P → UInt64 → Nat → UInt8} {s t : Tracked P}
    {actions : List (Action P)} (h : run (step ks) s actions = some t) :
    run (fun prefetch action => (prefetch.step ks action).map Prod.fst) s.prefetch actions =
      some t.prefetch := by
  apply run_project Tracked.prefetch _ h
  intro s action t hstep
  obtain ⟨now, reply, hnow, rfl⟩ := step_eq_some.mp hstep
  rw [hnow, observe_prefetch]
  rfl

end Tracked

end Catplay.Analysis.Prefetch
