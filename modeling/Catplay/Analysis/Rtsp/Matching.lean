import Catplay.Analysis.Rtsp.Ledger
import Catplay.Library.Run
import Mathlib.Data.List.Nodup

/-!
# Requests and responses find each other

The queue follows the ledger (`Tracks`) as long as no operation takes away the sender of a future
that is still waiting. That happens only when the numbers have wrapped: two requests that are
2^32 apart have the same one.
-/

set_option autoImplicit false

namespace Catplay.Analysis.Rtsp.Queue

open Catplay.Library.Run Catplay.Model.Rtsp

/-- **Every request is matched with its response**, after the operations `ops`. -/
structure Matched (fifo : Bool) (ops : List RtspOp) (q : RtspQueue) : Prop where
  outcomes : ∀ k d, (k, d) ∈ q.resolved ↔ (ledger fifo ops).outcome k = some d
  once : (q.resolved.map Prod.fst).Nodup
  inTurn : fifo = true → ∀ k r, (ledger fifo ops).answers[k]? = some r →
    (k, .response r) ∈ q.resolved ∨ (ledger fifo ops).dropped k = true
  onlyInTurn : fifo = true → ∀ k r, (k, .response r) ∈ q.resolved →
    (ledger fifo ops).answers[k]? = some r
  ownCseq : fifo = false → ∀ k r, (k, .response r) ∈ q.resolved → r.cseq = some (.ofNat k)
  unmatched : ∀ r, ¬ (ledger fifo ops).Expects r → q.step (.feed r) = some q
  afterClose : ∀ before after k, ops = before ++ .close :: after →
    k < (ledger fifo ops).asked → (ledger fifo before).dropped k = false →
    (ledger fifo before).outcome k = none → (k, .closed) ∈ q.resolved

/-- **No sender of a live future is taken away**: not by the drop of another future with the same
number, and not by a request that gets the number of a waiting one. -/
def Undisturbed (q : RtspQueue) : RtspOp → Prop
  | .queue _ =>
    q.inner.closed = false → q.inner.fifo = false → q.pendingSender q.inner.nextCseq = none
  | .dropFuture k =>
    ∀ handle ∈ q.futures[k]?, ∀ j ∈ q.takenSender handle.cseq, j = k ∨ q.isDropped j = true
  | _ => True

instance (q : RtspQueue) : ∀ op, Decidable (Undisturbed q op)
  | .queue _ => inferInstanceAs (Decidable (_ → _ → _))
  | .dropFuture _ => inferInstanceAs (Decidable (∀ _ ∈ _, ∀ _ ∈ _, _))
  | .drain => .isTrue trivial
  | .feed _ => .isTrue trivial
  | .close => .isTrue trivial

/-! ## The channels -/

section Channels

variable {q : RtspQueue}

@[simp] theorem inner_send (k : Nat) (d : Resolution) : (q.send k d).inner = q.inner := by
  unfold RtspQueue.send
  split <;> rfl

@[simp] theorem futures_send (k : Nat) (d : Resolution) : (q.send k d).futures = q.futures := by
  unfold RtspQueue.send
  split <;> rfl

@[simp] theorem isDropped_send (k : Nat) (d : Resolution) (j : Nat) :
    (q.send k d).isDropped j = q.isDropped j := by
  unfold RtspQueue.isDropped
  rw [futures_send]

theorem resolved_send (k : Nat) (d : Resolution) :
    (q.send k d).resolved = q.resolved ++ if q.isDropped k then [] else [(k, d)] := by
  unfold RtspQueue.send
  split
  · exact (List.append_nil _).symm
  · rfl

variable (q) in
theorem sendAll_cons (k : Nat) (ks : List Nat) (d : Resolution) :
    q.sendAll (k :: ks) d = (q.send k d).sendAll ks d := rfl

@[simp] theorem inner_sendAll (ks : List Nat) (d : Resolution) :
    (q.sendAll ks d).inner = q.inner := by
  induction ks generalizing q with
  | nil => rfl
  | cons k ks ih => rw [sendAll_cons, ih, inner_send]

@[simp] theorem futures_sendAll (ks : List Nat) (d : Resolution) :
    (q.sendAll ks d).futures = q.futures := by
  induction ks generalizing q with
  | nil => rfl
  | cons k ks ih => rw [sendAll_cons, ih, futures_send]

/-- A send reaches each future that is still there, in order. -/
theorem resolved_sendAll (ks : List Nat) (d : Resolution) :
    (q.sendAll ks d).resolved =
      q.resolved ++ (ks.filter fun k => !q.isDropped k).map fun k => (k, d) := by
  induction ks generalizing q with
  | nil => exact (List.append_nil _).symm
  | cons k ks ih =>
    rw [sendAll_cons, ih, resolved_send, List.append_assoc]
    simp only [isDropped_send]
    cases hdropped : q.isDropped k <;> simp [hdropped]

/-- Nothing is sent to futures that are gone. -/
theorem sendAll_of_dropped {ks : List Nat} (h : ∀ k ∈ ks, q.isDropped k = true)
    (d : Resolution) : q.sendAll ks d = q := by
  induction ks with
  | nil => rfl
  | cons k ks ih =>
    have hhead : q.send k d = q := if_pos (h k List.mem_cons_self)
    rw [sendAll_cons, hhead]
    exact ih fun j hj => h j (List.mem_cons_of_mem k hj)

end Channels

/-! ## In turn -/

/-- The entries of the FIFO stand for the requests from number `n` on; a sender is missing only
where the future was dropped. -/
def Turns (asked : Nat) (dropped : Nat → Bool) : Nat → List FifoPending → Prop
  | n, [] => n = asked
  | n, entry :: rest =>
    entry.cseq = .ofNat n ∧
      (entry.sender = some n ∨ entry.sender = none ∧ dropped n = true) ∧
      Turns asked dropped (n + 1) rest

namespace Turns

variable {asked n : Nat} {dropped : Nat → Bool} {entries : List FifoPending}

theorem le (h : Turns asked dropped n entries) : n ≤ asked := by
  induction entries generalizing n with
  | nil => exact Nat.le_of_eq h
  | cons entry rest ih => exact Nat.le_of_succ_le (ih h.2.2)

theorem concat (h : Turns asked dropped n entries) :
    Turns (asked + 1) dropped n
      (entries ++ [{ cseq := .ofNat asked, sender := some asked }]) := by
  induction entries generalizing n with
  | nil =>
    obtain rfl : n = asked := h
    exact ⟨rfl, Or.inl rfl, rfl⟩
  | cons entry rest ih => exact ⟨h.1, h.2.1, ih h.2.2⟩

theorem mono {dropped' : Nat → Bool} (hle : ∀ k, dropped k = true → dropped' k = true)
    (h : Turns asked dropped n entries) : Turns asked dropped' n entries := by
  induction entries generalizing n with
  | nil => exact h
  | cons entry rest ih => exact ⟨h.1, h.2.1.imp_right (And.imp_right (hle n)), ih h.2.2⟩

/-- The drop of `k` takes a sender that nobody waits for. -/
theorem takeSender {cseq : UInt32} {k : Nat} (h : Turns asked dropped n entries)
    (htaken : ∀ j, (entries.find? (·.cseq = cseq)).bind FifoPending.sender = some j →
      j = k ∨ dropped j = true) :
    Turns asked (Function.update dropped k true) n (RtspQueue.takeSender cseq entries) := by
  have hle : ∀ j, dropped j = true → Function.update dropped k true j = true := by
    intro j hj
    by_cases hjk : j = k
    · rw [hjk, Function.update_self]
    · rw [Function.update_of_ne hjk, hj]
  induction entries generalizing n with
  | nil => exact h
  | cons entry rest ih =>
    obtain ⟨hcseq, hsender, hrest⟩ := h
    unfold RtspQueue.takeSender
    by_cases heq : entry.cseq = cseq
    · rw [if_pos heq]
      rw [List.find?_cons_of_pos (by simpa using heq)] at htaken
      refine ⟨hcseq, Or.inr ⟨rfl, ?_⟩, mono hle hrest⟩
      rcases hsender with hsome | ⟨_, hdropped⟩
      · rcases htaken n hsome with rfl | hdropped
        · exact Function.update_self ..
        · exact hle n hdropped
      · exact hle n hdropped
    · rw [if_neg heq]
      rw [List.find?_cons_of_neg (by simpa using heq)] at htaken
      exact ⟨hcseq, hsender.imp_right (And.imp_right (hle n)), ih hrest htaken⟩

theorem of_mem_senders (h : Turns asked dropped n entries) {k : Nat}
    (hk : k ∈ entries.filterMap FifoPending.sender) : n ≤ k ∧ k < asked := by
  induction entries generalizing n with
  | nil => cases hk
  | cons entry rest ih =>
    obtain ⟨_, hsender, hrest⟩ := h
    rcases hsender with hsome | ⟨hnone, _⟩
    · rw [List.filterMap_cons_some hsome] at hk
      rcases List.mem_cons.mp hk with rfl | hk
      · exact ⟨Nat.le_refl _, le hrest⟩
      · exact ⟨Nat.le_of_succ_le (ih hrest hk).1, (ih hrest hk).2⟩
    · rw [List.filterMap_cons_none hnone] at hk
      exact ⟨Nat.le_of_succ_le (ih hrest hk).1, (ih hrest hk).2⟩

theorem nodup_senders (h : Turns asked dropped n entries) :
    (entries.filterMap FifoPending.sender).Nodup := by
  induction entries generalizing n with
  | nil => exact List.nodup_nil
  | cons entry rest ih =>
    obtain ⟨_, hsender, hrest⟩ := h
    rcases hsender with hsome | ⟨hnone, _⟩
    · rw [List.filterMap_cons_some hsome]
      refine List.nodup_cons.mpr ⟨fun hmem => ?_, ih hrest⟩
      exact Nat.not_succ_le_self n (of_mem_senders hrest hmem).1
    · rw [List.filterMap_cons_none hnone]
      exact ih hrest

/-- Every later request whose future is still there has its sender in the FIFO. -/
theorem mem_senders (h : Turns asked dropped n entries) {k : Nat} (hle : n ≤ k) (hlt : k < asked)
    (hdropped : dropped k = false) : k ∈ entries.filterMap FifoPending.sender := by
  induction entries generalizing n with
  | nil =>
    have : n = asked := h
    omega
  | cons entry rest ih =>
    obtain ⟨_, hsender, hrest⟩ := h
    by_cases hkn : k = n
    · subst hkn
      rcases hsender with hsome | ⟨_, hgone⟩
      · rw [List.filterMap_cons_some hsome]
        exact List.mem_cons_self
      · rw [hdropped] at hgone
        cases hgone
    · have hmem := ih hrest (by omega)
      rcases hsender with hsome | ⟨hnone, _⟩
      · rw [List.filterMap_cons_some hsome]
        exact List.mem_cons_of_mem n hmem
      · rw [List.filterMap_cons_none hnone]
        exact hmem

end Turns

/-! ## The map -/

section Map

variable {q : RtspQueue} {cseq : UInt32} {k : Nat}

theorem mem_removePending {pending : List (UInt32 × Nat)} {entry : UInt32 × Nat} :
    entry ∈ RtspQueue.removePending pending cseq ↔ entry ∈ pending ∧ entry.1 ≠ cseq := by
  unfold RtspQueue.removePending
  rw [List.mem_filter, decide_eq_true_iff]

theorem nodup_removePending {pending : List (UInt32 × Nat)}
    (h : (pending.map Prod.fst).Nodup) :
    ((RtspQueue.removePending pending cseq).map Prod.fst).Nodup :=
  h.sublist (List.filter_sublist.map _)

theorem mem_of_pendingSender (h : q.pendingSender cseq = some k) :
    (cseq, k) ∈ q.inner.pendingResponse := by
  obtain ⟨entry, hfind, rfl⟩ := Option.map_eq_some_iff.mp h
  have hkey : entry.1 = cseq := by simpa using List.find?_some hfind
  rw [← hkey]
  exact List.mem_of_find?_eq_some hfind

theorem not_mem_of_pendingSender (h : q.pendingSender cseq = none) (k : Nat) :
    (cseq, k) ∉ q.inner.pendingResponse := by
  intro hmem
  have hnone := List.find?_eq_none.mp (Option.map_eq_none_iff.mp h) _ hmem
  simp at hnone

theorem removePending_of_none (h : q.pendingSender cseq = none) :
    RtspQueue.removePending q.inner.pendingResponse cseq = q.inner.pendingResponse := by
  refine List.filter_eq_self.mpr fun entry hmem => ?_
  have hnone := List.find?_eq_none.mp (Option.map_eq_none_iff.mp h) _ hmem
  simpa using hnone

end Map

/-! ## The queue follows the ledger -/

/-- What came out of the channels is what the ledger says. -/
def Agrees (q : RtspQueue) (l : Ledger) : Prop :=
  (∀ k d, (k, d) ∈ q.resolved ↔ l.outcome k = some d) ∧ (q.resolved.map Prod.fst).Nodup

/-- A send to futures that had nothing yet. -/
theorem Agrees.sendAll {q : RtspQueue} {l l' : Ledger} (h : Agrees q l) {ks : List Nat}
    {d : Resolution} (hks : ks.Nodup)
    (hnone : ∀ k ∈ ks, q.isDropped k = false → l.outcome k = none)
    (houtcome : ∀ k e, l'.outcome k = some e ↔
      l.outcome k = some e ∨ (k ∈ ks ∧ q.isDropped k = false) ∧ d = e) :
    Agrees (q.sendAll ks d) l' := by
  refine ⟨fun k e => ?_, ?_⟩
  · rw [resolved_sendAll, List.mem_append, houtcome, h.1]
    refine or_congr_right ?_
    simp only [List.mem_map, List.mem_filter, Bool.not_eq_true', Prod.mk.injEq]
    constructor
    · rintro ⟨j, hj, rfl, rfl⟩
      exact ⟨hj, rfl⟩
    · rintro ⟨hk, rfl⟩
      exact ⟨k, hk, rfl, rfl⟩
  · rw [resolved_sendAll, List.map_append, List.map_map]
    have hid : (Prod.fst ∘ fun k => (k, d)) = (id : Nat → Nat) := rfl
    rw [hid, List.map_id]
    refine List.nodup_append.mpr ⟨h.2, hks.filter _, fun k hk j hj hkj => ?_⟩
    subst hkj
    obtain ⟨⟨k', e⟩, hmem, rfl⟩ := List.mem_map.mp hk
    obtain ⟨hj, hlive⟩ := List.mem_filter.mp hj
    have hsome := (h.1 k' e).mp hmem
    rw [hnone k' hj (by simpa using hlive)] at hsome
    cases hsome

/-- A send to the waiting requests among `p` is what the ledger settles. -/
theorem Agrees.settle {q : RtspQueue} {l : Ledger} (h : Agrees q l)
    (hdropped : ∀ k, q.isDropped k = l.dropped k) {ks : List Nat} {p : Nat → Bool}
    (hks : ks.Nodup) (hwaiting : ∀ k, k ∈ ks ∧ l.dropped k = false ↔ l.Waiting k ∧ p k)
    (d : Resolution) : Agrees (q.sendAll ks d) (l.settle p d) := by
  refine h.sendAll hks (fun k hk hlive => ?_) (fun k e => ?_)
  · rw [hdropped] at hlive
    exact ((hwaiting k).mp ⟨hk, hlive⟩).1.2.2
  · rw [hdropped, hwaiting]
    exact Ledger.outcome_settle

/-- The requests that the queue still holds, in either mode. -/
structure Pending (inner : Inner) (l : Ledger) : Prop where
  noMap : l.fifo = true → inner.pendingResponse = []
  noFifo : l.fifo = false → inner.pendingResponseFifo = []
  emptied : l.closed = true → inner.pendingResponseFifo = []
  turns : l.fifo = true → l.closed = false →
    Turns l.asked l.dropped l.answers.length inner.pendingResponseFifo
  keys : (inner.pendingResponse.map Prod.fst).Nodup
  waiting : l.fifo = false → ∀ cseq k, (cseq, k) ∈ inner.pendingResponse ↔
    l.Waiting k ∧ cseq = .ofNat k

/-- The queue holds what the ledger knows. -/
structure Holds (q : RtspQueue) (l : Ledger) : Prop where
  fifo : q.inner.fifo = l.fifo
  closed : q.inner.closed = l.closed
  next : q.inner.nextCseq = .ofNat l.asked
  asked : q.futures.length = l.asked
  handle : ∀ k f, q.futures[k]? = some f → f.cseq = .ofNat k ∧ f.dropped = l.dropped k
  unmade : ∀ k, l.asked ≤ k → l.dropped k = false
  made : l.Made
  inTurn : l.fifo = true → l.InTurn
  pending : Pending q.inner l

/-- **The queue follows the ledger.** -/
structure Tracks (q : RtspQueue) (l : Ledger) : Prop extends Holds q l where
  agrees : Agrees q l

/-- A send changes nothing but what came out of the channels. -/
theorem Holds.sendAll {q : RtspQueue} {l : Ledger} (h : Holds q l) (ks : List Nat)
    (d : Resolution) : Holds (q.sendAll ks d) l where
  fifo := by rw [inner_sendAll, h.fifo]
  closed := by rw [inner_sendAll, h.closed]
  next := by rw [inner_sendAll, h.next]
  asked := by rw [futures_sendAll, h.asked]
  handle := by
    rw [futures_sendAll]
    exact h.handle
  unmade := h.unmade
  made := h.made
  inTurn := h.inTurn
  pending := by
    rw [inner_sendAll]
    exact h.pending

namespace Tracks

variable {q : RtspQueue} {l : Ledger}

theorem create (fifo : Bool) : Tracks (.create fifo) (.create fifo) where
  fifo := rfl
  closed := rfl
  next := rfl
  asked := rfl
  handle := fun k f h => by simp [RtspQueue.create] at h
  unmade := fun _ _ => rfl
  made := Ledger.made_create fifo
  inTurn := fun _ => Ledger.inTurn_create fifo
  pending :=
    { noMap := fun _ => rfl
      noFifo := fun _ => rfl
      emptied := fun _ => rfl
      turns := fun _ _ => rfl
      keys := List.nodup_nil
      waiting := fun _ cseq k =>
        ⟨fun h => absurd h List.not_mem_nil, fun h => absurd h.1.1 (Nat.not_lt_zero k)⟩ }
  agrees :=
    ⟨fun k d => ⟨fun h => absurd h List.not_mem_nil, fun h => by cases h⟩, List.nodup_nil⟩

theorem isDropped (h : Tracks q l) (k : Nat) : q.isDropped k = l.dropped k := by
  unfold RtspQueue.isDropped
  cases hget : q.futures[k]? with
  | none =>
    have hle := List.getElem?_eq_none_iff.mp hget
    rw [h.asked] at hle
    exact (h.unmade k hle).symm
  | some f => exact (h.handle k f hget).2

/-- A new future at the end of the list is there, with the next number. -/
theorem handle_concat (h : Tracks q l) {k : Nat} {f : RtspFuture}
    (hget : (q.futures ++ [{ cseq := q.inner.nextCseq, dropped := false }])[k]? = some f) :
    f.cseq = .ofNat k ∧ f.dropped = l.dropped k := by
  rcases Nat.lt_trichotomy k q.futures.length with hlt | rfl | hgt
  · rw [List.getElem?_append_left hlt] at hget
    exact h.handle k f hget
  · rw [List.getElem?_concat_length] at hget
    obtain rfl := Option.some.inj hget
    rw [h.asked]
    exact ⟨h.next, (h.unmade _ (Nat.le_refl _)).symm⟩
  · rw [List.getElem?_eq_none (by rw [List.length_append]; exact hgt)] at hget
    cases hget

theorem ofNat_succ (n : Nat) : UInt32.ofNat n + 1 = .ofNat (n + 1) := by
  rw [UInt32.ofNat_add]
  rfl

/-- The step of the ledger for a request of an open queue: one more is waiting. -/
theorem waiting_asked (h : Tracks q l) (k : Nat) :
    ({ l with asked := l.asked + 1 } : Ledger).Waiting k ↔ l.Waiting k ∨ k = l.asked := by
  have hnone : l.outcome l.asked = none := by
    refine Option.eq_none_iff_forall_ne_some.mpr fun d hd => ?_
    exact Nat.lt_irrefl _ (h.made.outcome _ d hd)
  constructor
  · rintro ⟨hlt, hdropped, hk⟩
    rcases Nat.lt_succ_iff_lt_or_eq.mp hlt with hlt | heq
    · exact Or.inl ⟨hlt, hdropped, hk⟩
    · exact Or.inr heq
  · rintro (hw | rfl)
    · exact ⟨Nat.lt_succ_of_lt hw.1, hw.2⟩
    · exact ⟨Nat.lt_succ_self _, h.unmade _ (Nat.le_refl _), hnone⟩

/-- The queue has handed out the next future. -/
def handedOut (q : RtspQueue) : RtspQueue :=
  { q with
    inner.nextCseq := q.inner.nextCseq + 1
    futures := q.futures ++ [{ cseq := q.inner.nextCseq, dropped := false }] }

theorem next_handedOut (h : Tracks q l) :
    (handedOut q).inner.nextCseq = .ofNat (l.asked + 1) := by
  rw [← ofNat_succ, ← h.next]
  rfl

theorem asked_handedOut (h : Tracks q l) : (handedOut q).futures.length = l.asked + 1 := by
  rw [← h.asked]
  exact List.length_append

theorem outcome_asked (h : Tracks q l) : l.outcome l.asked = none := by
  refine Option.eq_none_iff_forall_ne_some.mpr fun d hd => ?_
  exact Nat.lt_irrefl _ (h.made.outcome _ d hd)

theorem isDropped_handedOut (h : Tracks q l) : (handedOut q).isDropped l.asked = false := by
  unfold RtspQueue.isDropped
  have hget : (handedOut q).futures[l.asked]? =
      some { cseq := q.inner.nextCseq, dropped := false } := by
    rw [← h.asked]
    exact List.getElem?_concat_length
  rw [hget]
  rfl

/-- A request of a closed queue is closed at once. -/
theorem queue_closed (h : Tracks q l) (hclosed : l.closed = true) (request : RtspRequest) :
    Tracks (q.queue request) (l.step (.queue request)) := by
  have hmade := Ledger.made_step h.made (.queue request)
  have hturn := fun hfifo => Ledger.inTurn_step hfifo (h.inTurn hfifo) (.queue request)
  have hqueue : q.queue request = (handedOut q).send q.futures.length .closed :=
    if_pos (h.closed.trans hclosed)
  have hstep : l.step (.queue request) =
      { l with
        asked := l.asked + 1
        outcome := Function.update l.outcome l.asked (some .closed) } := by
    simp only [Ledger.step, if_pos hclosed]
  rw [hstep] at hmade hturn ⊢
  rw [hqueue, h.asked]
  have hpending := h.pending
  have hheld : Pending (handedOut q).inner
      { l with
        asked := l.asked + 1
        outcome := Function.update l.outcome l.asked (some .closed) } := by
    refine ⟨hpending.noMap, hpending.noFifo, hpending.emptied, ?_, hpending.keys, ?_⟩
    · intro _ hopen
      rw [show l.closed = false from hopen] at hclosed
      cases hclosed
    · intro hfifo cseq k
      refine (hpending.waiting hfifo cseq k).trans ⟨fun hw => ?_, fun hw => ?_⟩
      · exact absurd hw.1 (h.made.closed hclosed k)
      · exact absurd hw.1 (hmade.closed hclosed k)
  refine ⟨Holds.sendAll ?_ [l.asked] .closed, ?_⟩
  · exact
      { fifo := h.fifo, closed := h.closed, next := h.next_handedOut
        asked := h.asked_handedOut, handle := fun k f hget => h.handle_concat hget
        unmade := fun k hk => h.unmade k (Nat.le_of_succ_le hk)
        made := hmade, inTurn := hturn, pending := hheld }
  · have hsame : Agrees (handedOut q) l := h.agrees
    refine hsame.sendAll (List.nodup_singleton l.asked) (fun k hk _ => ?_) (fun k e => ?_)
    · obtain rfl := List.mem_singleton.mp hk
      exact h.outcome_asked
    · show Function.update l.outcome l.asked (some .closed) k = some e ↔ _
      by_cases hk : k = l.asked
      · subst hk
        rw [Function.update_self, h.outcome_asked, Option.some.injEq]
        constructor
        · exact fun he => Or.inr ⟨⟨List.mem_singleton_self _, h.isDropped_handedOut⟩, he⟩
        · exact fun he => (he.resolve_left (by rintro ⟨⟩)).2
      · rw [Function.update_of_ne hk]
        exact ⟨Or.inl, fun he => he.resolve_right fun hmem =>
          hk (List.mem_singleton.mp hmem.1.1)⟩

/-- A request of an open queue waits, in the FIFO or in the map. -/
theorem queue_open (h : Tracks q l) (hopen : l.closed = false) (request : RtspRequest)
    (hundisturbed : Undisturbed q (.queue request)) :
    Tracks (q.queue request) (l.step (.queue request)) := by
  have hmade := Ledger.made_step h.made (.queue request)
  have hturn := fun hfifo => Ledger.inTurn_step hfifo (h.inTurn hfifo) (.queue request)
  have hclosed : q.inner.closed = false := h.closed.trans hopen
  have hstep : l.step (.queue request) = { l with asked := l.asked + 1 } := by
    simp only [Ledger.step, hopen, Bool.false_eq_true, if_false]
  rw [hstep] at hmade hturn ⊢
  have hpending := h.pending
  rcases Bool.eq_false_or_eq_true l.fifo with hfifo | hfifo
  · have hqueue : q.queue request =
        { handedOut q with
          inner.pendingResponseFifo := q.inner.pendingResponseFifo ++
            [{ cseq := q.inner.nextCseq, sender := some q.futures.length }]
          inner.pendingSend :=
            q.inner.pendingSend ++ [{ request with cseq := some q.inner.nextCseq }] } :=
      (if_neg (Bool.eq_false_iff.mp hclosed)).trans (if_pos (h.fifo.trans hfifo))
    rw [hqueue]
    refine
      { fifo := h.fifo, closed := h.closed, next := h.next_handedOut
        asked := h.asked_handedOut, handle := fun k f hget => h.handle_concat hget
        unmade := fun k hk => h.unmade k (Nat.le_of_succ_le hk)
        made := hmade, inTurn := hturn, pending := ?_, agrees := h.agrees }
    refine ⟨hpending.noMap, fun hmode => ?_, fun hc => ?_, fun _ _ => ?_, hpending.keys,
      fun hmode => ?_⟩
    · rw [show l.fifo = false from hmode] at hfifo
      cases hfifo
    · rw [show l.closed = true from hc] at hopen
      cases hopen
    · have hturns := (hpending.turns hfifo hopen).concat
      rw [← h.next, ← h.asked] at hturns
      rw [← h.asked]
      exact hturns
    · rw [show l.fifo = false from hmode] at hfifo
      cases hfifo
  · have hnone : q.pendingSender q.inner.nextCseq = none :=
      hundisturbed hclosed (h.fifo.trans hfifo)
    have hqueue : q.queue request =
        { handedOut q with
          inner.pendingResponse :=
            RtspQueue.removePending q.inner.pendingResponse q.inner.nextCseq ++
              [(q.inner.nextCseq, q.futures.length)]
          inner.pendingSend :=
            q.inner.pendingSend ++ [{ request with cseq := some q.inner.nextCseq }] }.sendAll
          (q.pendingSender q.inner.nextCseq).toList .canceled :=
      (if_neg (Bool.eq_false_iff.mp hclosed)).trans
        (if_neg (Bool.eq_false_iff.mp (h.fifo.trans hfifo)))
    rw [hqueue, removePending_of_none hnone, hnone, h.asked]
    refine
      { fifo := h.fifo, closed := h.closed, next := h.next_handedOut
        asked := h.asked_handedOut, handle := fun k f hget => h.handle_concat hget
        unmade := fun k hk => h.unmade k (Nat.le_of_succ_le hk)
        made := hmade, inTurn := hturn, pending := ?_, agrees := h.agrees }
    refine ⟨fun hmode => ?_, hpending.noFifo, hpending.emptied, fun hmode => ?_, ?_,
      fun _ cseq k => ?_⟩
    · rw [show l.fifo = true from hmode] at hfifo
      cases hfifo
    · rw [show l.fifo = true from hmode] at hfifo
      cases hfifo
    · show ((q.inner.pendingResponse ++ [(q.inner.nextCseq, l.asked)]).map Prod.fst).Nodup
      rw [List.map_append, List.map_singleton]
      refine List.nodup_append.mpr ⟨hpending.keys, List.nodup_singleton _, ?_⟩
      intro cseq hcseq cseq' hcseq' heq
      obtain ⟨⟨key, k⟩, hmem, rfl⟩ := List.mem_map.mp hcseq
      have hkey : key = q.inner.nextCseq := heq.trans (List.mem_singleton.mp hcseq')
      rw [hkey] at hmem
      exact not_mem_of_pendingSender hnone k hmem
    · rw [h.waiting_asked, or_and_right, ← hpending.waiting hfifo]
      refine List.mem_append.trans (or_congr_right ?_)
      rw [List.mem_singleton, Prod.mk.injEq, h.next]
      constructor
      · rintro ⟨rfl, rfl⟩
        exact ⟨rfl, rfl⟩
      · rintro ⟨rfl, rfl⟩
        exact ⟨rfl, rfl⟩

theorem queue (h : Tracks q l) (request : RtspRequest)
    (hundisturbed : Undisturbed q (.queue request)) :
    Tracks (q.queue request) (l.step (.queue request)) := by
  cases hclosed : l.closed with
  | true => exact h.queue_closed hclosed request
  | false => exact h.queue_open hclosed request hundisturbed

/-- In CSeq mode a sender in the map is that of a waiting request. -/
theorem waiting_of_pendingSender (h : Tracks q l) (hfifo : l.fifo = false) {cseq : UInt32}
    {k : Nat} (hsender : q.pendingSender cseq = some k) : l.Waiting k ∧ cseq = .ofNat k :=
  (h.pending.waiting hfifo cseq k).mp (mem_of_pendingSender hsender)

/-- The keys of the map differ, so a waiting request is the one its number finds. -/
theorem pendingSender_of_waiting (h : Tracks q l) (hfifo : l.fifo = false) {k : Nat}
    (hw : l.Waiting k) : q.pendingSender (.ofNat k) = some k := by
  have hmem := (h.pending.waiting hfifo (.ofNat k) k).mpr ⟨hw, rfl⟩
  cases hsender : q.pendingSender (.ofNat k) with
  | none => exact absurd hmem (not_mem_of_pendingSender hsender k)
  | some j =>
    have hmem' := mem_of_pendingSender hsender
    have heq := List.inj_on_of_nodup_map h.pending.keys hmem' hmem rfl
    rw [(Prod.mk.inj heq).2]

/-- The receiver of a future is gone. -/
def droppedAt (q : RtspQueue) (k : Nat) (handle : RtspFuture) : RtspQueue :=
  { q with futures := q.futures.set k { handle with dropped := true } }

theorem isDropped_droppedAt {k : Nat} {handle : RtspFuture} (hlt : k < q.futures.length) (j : Nat) :
    (droppedAt q k handle).isDropped j = Function.update q.isDropped k true j := by
  unfold RtspQueue.isDropped droppedAt
  by_cases hjk : j = k
  · subst hjk
    rw [Function.update_self, List.getElem?_set_self hlt]
    rfl
  · rw [Function.update_of_ne hjk, List.getElem?_set_ne (Ne.symm hjk)]

theorem handle_droppedAt (h : Tracks q l) {k : Nat} {handle : RtspFuture}
    (hget : q.futures[k]? = some handle) {j : Nat} {f : RtspFuture}
    (hj : (droppedAt q k handle).futures[j]? = some f) :
    f.cseq = .ofNat j ∧ f.dropped = Function.update l.dropped k true j := by
  by_cases hjk : j = k
  · subst hjk
    obtain ⟨hlt, _⟩ := List.getElem?_eq_some_iff.mp hget
    have hself : (droppedAt q j handle).futures[j]? = some { handle with dropped := true } :=
      List.getElem?_set_self hlt
    rw [hself] at hj
    obtain rfl := Option.some.inj hj
    exact ⟨(h.handle j handle hget).1, by rw [Function.update_self]⟩
  · have hother : (droppedAt q k handle).futures[j]? = q.futures[j]? :=
      List.getElem?_set_ne (Ne.symm hjk)
    rw [hother] at hj
    rw [Function.update_of_ne hjk]
    exact h.handle j f hj

theorem waiting_update {k j : Nat} :
    ({ l with dropped := Function.update l.dropped k true } : Ledger).Waiting j ↔
      l.Waiting j ∧ j ≠ k := by
  show (j < l.asked ∧ Function.update l.dropped k true j = false ∧ l.outcome j = none) ↔ _
  by_cases hjk : j = k
  · subst hjk
    simp
  · rw [Function.update_of_ne hjk]
    exact ⟨fun hw => ⟨hw, hjk⟩, fun hw => hw.1⟩

/-- `q.inner` when a future with this number has been dropped. -/
def released (q : RtspQueue) (cseq : UInt32) : Inner :=
  if q.inner.fifo then
    { q.inner with
      pendingResponseFifo := RtspQueue.takeSender cseq q.inner.pendingResponseFifo }
  else
    { q.inner with pendingResponse := RtspQueue.removePending q.inner.pendingResponse cseq }

theorem dropFuture_eq {k : Nat} {handle : RtspFuture} (hget : q.futures[k]? = some handle)
    (hlive : handle.dropped = false) :
    q.dropFuture k = some ({ droppedAt q k handle with inner := released q handle.cseq }.sendAll
      (q.takenSender handle.cseq).toList .canceled) := by
  unfold RtspQueue.dropFuture released
  simp only [hget]
  rw [if_neg (Bool.eq_false_iff.mp hlive)]
  by_cases hfifo : q.inner.fifo = true
  · rw [if_pos hfifo, if_pos hfifo]
    rfl
  · rw [if_neg hfifo, if_neg hfifo]
    rfl

/-- What the drop of a future leaves in the FIFO or in the map. -/
theorem pending_dropFuture (h : Tracks q l) {k : Nat} {handle : RtspFuture}
    (hget : q.futures[k]? = some handle) (hundisturbed : Undisturbed q (.dropFuture k)) :
    Pending (released q handle.cseq) (l.step (.dropFuture k)) := by
  have hpending := h.pending
  have hcseq := (h.handle k handle hget).1
  unfold released
  rcases Bool.eq_false_or_eq_true l.fifo with hfifo | hfifo
  · rw [if_pos (h.fifo.trans hfifo)]
    refine ⟨hpending.noMap, fun hmode => ?_, fun hc => ?_, fun _ hopen => ?_, hpending.keys,
      fun hmode => ?_⟩
    · rw [show l.fifo = false from hmode] at hfifo
      cases hfifo
    · show RtspQueue.takeSender handle.cseq q.inner.pendingResponseFifo = []
      rw [hpending.emptied hc]
      rfl
    · refine (hpending.turns hfifo hopen).takeSender fun j hj => ?_
      have htaken : q.takenSender handle.cseq = some j := by
        rw [RtspQueue.takenSender, if_pos (h.fifo.trans hfifo)]
        exact hj
      rw [← h.isDropped]
      exact hundisturbed handle hget j htaken
    · rw [show l.fifo = false from hmode] at hfifo
      cases hfifo
  · have hmode' := Bool.eq_false_iff.mp (h.fifo.trans hfifo)
    rw [if_neg hmode']
    refine ⟨fun hmode => ?_, hpending.noFifo, hpending.emptied, fun hmode => ?_,
      nodup_removePending hpending.keys, fun _ cseq j => ?_⟩
    · rw [show l.fifo = true from hmode] at hfifo
      cases hfifo
    · rw [show l.fifo = true from hmode] at hfifo
      cases hfifo
    · refine mem_removePending.trans ?_
      rw [hpending.waiting hfifo, hcseq]
      refine Iff.trans ?_ (and_congr_left' waiting_update).symm
      constructor
      · rintro ⟨⟨hw, rfl⟩, hne⟩
        exact ⟨⟨hw, fun hjk => hne (by rw [hjk])⟩, rfl⟩
      · rintro ⟨⟨hw, hjk⟩, rfl⟩
        refine ⟨⟨hw, rfl⟩, fun heq => ?_⟩
        -- the number would find another request than the one dropped
        have htaken : q.takenSender handle.cseq = some j := by
          rw [RtspQueue.takenSender, if_neg hmode', hcseq, ← heq]
          exact h.pendingSender_of_waiting hfifo hw
        rcases hundisturbed handle hget j htaken with hk | hgone
        · exact hjk hk
        · rw [h.isDropped, hw.2.1] at hgone
          cases hgone

theorem dropFuture (h : Tracks q l) {k : Nat} (hundisturbed : Undisturbed q (.dropFuture k))
    {q' : RtspQueue} (hstep : q.dropFuture k = some q') :
    Tracks q' (l.step (.dropFuture k)) := by
  cases hget : q.futures[k]? with
  | none =>
    rw [RtspQueue.dropFuture, hget] at hstep
    cases hstep
  | some handle =>
    cases hlive : handle.dropped with
    | true =>
      simp only [RtspQueue.dropFuture, hget, hlive, if_true] at hstep
      cases hstep
    | false =>
      have hlt := (List.getElem?_eq_some_iff.mp hget).1
      rw [dropFuture_eq hget hlive, sendAll_of_dropped] at hstep
      · obtain rfl := Option.some.inj hstep
        have hunmade : ∀ j, l.asked ≤ j → Function.update l.dropped k true j = false := by
          intro j hj
          rw [h.asked] at hlt
          rw [Function.update_of_ne (by omega)]
          exact h.unmade j hj
        have hlength : (droppedAt q k handle).futures.length = l.asked := by
          rw [← h.asked]
          exact List.length_set
        have hpending := h.pending_dropFuture hget hundisturbed
        have hmade := Ledger.made_step h.made (.dropFuture k)
        have hturn := fun hfifo => Ledger.inTurn_step hfifo (h.inTurn hfifo) (.dropFuture k)
        refine
          ⟨{ fifo := ?_, closed := ?_, next := ?_, asked := hlength
             handle := fun j f hj => h.handle_droppedAt hget hj, unmade := hunmade
             made := hmade, inTurn := hturn, pending := hpending }, h.agrees⟩
        · exact (apply_ite Inner.fifo ..).trans ((ite_self _).trans h.fifo)
        · exact (apply_ite Inner.closed ..).trans ((ite_self _).trans h.closed)
        · exact (apply_ite Inner.nextCseq ..).trans ((ite_self _).trans h.next)
      · intro j hj
        refine (isDropped_droppedAt hlt j).trans ?_
        by_cases hjk : j = k
        · rw [hjk, Function.update_self]
        · rw [Function.update_of_ne hjk]
          exact (hundisturbed handle hget j (Option.mem_toList.mp hj)).resolve_left hjk

/-- The response whose turn it is reaches its request, or is swallowed. -/
theorem feed_turn (h : Tracks q l) (hfifo : l.fifo = true) (hopen : l.closed = false)
    {pending : FifoPending} {rest : List FifoPending}
    (hentries : q.inner.pendingResponseFifo = pending :: rest) (r : RtspResponse) :
    Tracks (q.feed r) (l.step (.feed r)) := by
  have hturns := h.pending.turns hfifo hopen
  rw [hentries] at hturns
  obtain ⟨_, hsender, hrest⟩ := hturns
  have hlt : l.answers.length < l.asked := hrest.le
  have hnone := (h.inTurn hfifo).ahead hopen _ (Nat.le_refl _)
  have hmade := Ledger.made_step h.made (.feed r)
  have hturn := fun hfifo => Ledger.inTurn_step hfifo (h.inTurn hfifo) (.feed r)
  have hfeed : q.feed r =
      { q with inner.pendingResponseFifo := rest }.sendAll pending.sender.toList
        (.response r) := by
    rw [RtspQueue.feed, if_pos (h.fifo.trans hfifo), hentries]
  have hstep : l.step (.feed r) =
      { l with answers := l.answers ++ [r] }.settle (· = l.answers.length) (.response r) := by
    rw [Ledger.step, if_pos hfifo, if_pos ⟨hopen, hlt⟩]
  rw [hstep] at hmade hturn ⊢
  rw [hfeed]
  refine ⟨Holds.sendAll ?_ pending.sender.toList (.response r), ?_⟩
  · refine
      { fifo := h.fifo, closed := h.closed, next := h.next, asked := h.asked, handle := h.handle
        unmade := h.unmade, made := hmade, inTurn := hturn, pending := ?_ }
    refine ⟨h.pending.noMap, fun hmode => ?_, fun hc => ?_, fun _ _ => ?_, h.pending.keys,
      fun hmode => ?_⟩
    · rw [show l.fifo = false from hmode] at hfifo
      cases hfifo
    · rw [show l.closed = true from hc] at hopen
      cases hopen
    · show Turns l.asked l.dropped (l.answers ++ [r]).length rest
      rw [List.length_append]
      exact hrest
    · rw [show l.fifo = false from hmode] at hfifo
      cases hfifo
  · have hsame : Agrees { q with inner.pendingResponseFifo := rest }
        { l with answers := l.answers ++ [r] } := h.agrees
    refine hsame.settle (fun k => h.isDropped k) ?_ (fun k => ?_) _
    · cases pending.sender with
      | none => exact List.nodup_nil
      | some k => exact List.nodup_singleton k
    · show k ∈ pending.sender.toList ∧ l.dropped k = false ↔
        l.Waiting k ∧ decide (k = l.answers.length) = true
      rw [decide_eq_true_iff]
      rcases hsender with hsome | ⟨hmissing, hdropped⟩
      · rw [hsome, Option.toList_some, List.mem_singleton]
        constructor
        · rintro ⟨rfl, hlive⟩
          exact ⟨⟨hlt, hlive, hnone⟩, rfl⟩
        · exact fun hw => ⟨hw.2, hw.1.2.1⟩
      · rw [hmissing, Option.toList_none]
        constructor
        · exact fun hw => absurd hw.1 List.not_mem_nil
        · rintro ⟨hw, rfl⟩
          rw [hw.2.1] at hdropped
          cases hdropped

/-- Nothing is settled where nothing waits. -/
theorem settle_eq_self {p : Nat → Bool} (h : ∀ k, l.Waiting k → p k = false) (d : Resolution) :
    l.settle p d = l := by
  have houtcome : (fun k => if l.Waiting k ∧ p k then some d else l.outcome k) = l.outcome := by
    funext k
    refine if_neg fun hw => ?_
    rw [h k hw.1] at hw
    exact Bool.noConfusion hw.2
  unfold Ledger.settle
  rw [houtcome]

/-- A response that nothing expects disturbs neither the queue nor the ledger. -/
theorem feed_unexpected (h : Tracks q l) (r : RtspResponse) (hnot : ¬ l.Expects r) :
    q.feed r = q ∧ l.step (.feed r) = l := by
  rcases Bool.eq_false_or_eq_true l.fifo with hfifo | hfifo
  · rw [Ledger.Expects, if_pos hfifo] at hnot
    rw [RtspQueue.feed, if_pos (h.fifo.trans hfifo), Ledger.step, if_pos hfifo, if_neg hnot]
    have hempty : q.inner.pendingResponseFifo = [] := by
      rcases Bool.eq_false_or_eq_true l.closed with hclosed | hopen
      · exact h.pending.emptied hclosed
      · have hturns := h.pending.turns hfifo hopen
        cases hentries : q.inner.pendingResponseFifo with
        | nil => rfl
        | cons pending rest =>
          rw [hentries] at hturns
          exact absurd ⟨hopen, hturns.2.2.le⟩ hnot
    rw [hempty]
    exact ⟨rfl, rfl⟩
  · have hmode := Bool.eq_false_iff.mp hfifo
    rw [Ledger.Expects, if_neg hmode] at hnot
    rw [RtspQueue.feed, if_neg (Bool.eq_false_iff.mp (h.fifo.trans hfifo)), Ledger.step,
      if_neg hmode]
    constructor
    · cases hcseq : r.cseq with
      | none => rfl
      | some cseq =>
        cases hsender : q.pendingSender cseq with
        | none => simp only [hsender]
        | some k =>
          obtain ⟨hw, rfl⟩ := h.waiting_of_pendingSender hfifo hsender
          exact absurd ⟨k, hw, hcseq⟩ hnot
    · exact settle_eq_self (fun k hw => decide_eq_false fun heq => hnot ⟨k, hw, heq⟩) _

/-- A response in CSeq mode reaches the waiting request with its number. -/
theorem feed_cseq (h : Tracks q l) (hfifo : l.fifo = false) {r : RtspResponse} {k : Nat}
    (hw : l.Waiting k) (hcseq : r.cseq = some (.ofNat k)) :
    Tracks (q.feed r) (l.step (.feed r)) := by
  have hmade := Ledger.made_step h.made (.feed r)
  have hsender := h.pendingSender_of_waiting hfifo hw
  have hstep : l.step (.feed r) =
      l.settle (fun k => r.cseq = some (.ofNat k)) (.response r) :=
    if_neg (Bool.eq_false_iff.mp hfifo)
  have hfeed : q.feed r =
      { q with
        inner.pendingResponse :=
          RtspQueue.removePending q.inner.pendingResponse (.ofNat k) }.sendAll [k]
        (.response r) := by
    rw [RtspQueue.feed, if_neg (Bool.eq_false_iff.mp (h.fifo.trans hfifo)), hcseq]
    simp only [hsender]
    rfl
  have honly : ∀ j, l.Waiting j → (r.cseq = some (.ofNat j) ↔ j = k) := by
    intro j hj
    rw [hcseq, Option.some.injEq]
    refine ⟨fun heq => ?_, fun heq => by rw [heq]⟩
    have hother := h.pendingSender_of_waiting hfifo hj
    rw [← heq, hsender] at hother
    exact (Option.some.inj hother).symm
  rw [hstep] at hmade ⊢
  rw [hfeed]
  refine ⟨Holds.sendAll ?_ [k] (.response r), ?_⟩
  · refine
      { fifo := h.fifo, closed := h.closed, next := h.next, asked := h.asked, handle := h.handle
        unmade := h.unmade, made := hmade, inTurn := fun hmode => ?_, pending := ?_ }
    · rw [show l.fifo = true from hmode] at hfifo
      cases hfifo
    · refine ⟨fun hmode => ?_, h.pending.noFifo, h.pending.emptied, fun hmode => ?_,
        nodup_removePending h.pending.keys, fun _ cseq j => ?_⟩
      · rw [show l.fifo = true from hmode] at hfifo
        cases hfifo
      · rw [show l.fifo = true from hmode] at hfifo
        cases hfifo
      · refine mem_removePending.trans ?_
        rw [h.pending.waiting hfifo, Ledger.waiting_settle, decide_eq_false_iff_not]
        constructor
        · rintro ⟨⟨hj, rfl⟩, hne⟩
          exact ⟨⟨hj, fun heq => hne (by rw [(honly j hj).mp heq])⟩, rfl⟩
        · rintro ⟨⟨hj, hne⟩, rfl⟩
          refine ⟨⟨hj, rfl⟩, fun heq => hne ?_⟩
          rw [hcseq]
          exact congrArg some heq.symm
  · have hsame : Agrees { q with
        inner.pendingResponse :=
          RtspQueue.removePending q.inner.pendingResponse (.ofNat k) } l := h.agrees
    refine hsame.settle (fun j => h.isDropped j) (List.nodup_singleton k) (fun j => ?_) _
    rw [List.mem_singleton, decide_eq_true_iff]
    constructor
    · rintro ⟨rfl, _⟩
      exact ⟨hw, hcseq⟩
    · exact fun hj => ⟨(honly j hj.1).mp hj.2, hj.1.2.1⟩

theorem feed (h : Tracks q l) (r : RtspResponse) : Tracks (q.feed r) (l.step (.feed r)) := by
  by_cases hexpects : l.Expects r
  · rcases Bool.eq_false_or_eq_true l.fifo with hfifo | hfifo
    · rw [Ledger.Expects, if_pos hfifo] at hexpects
      obtain ⟨hopen, hlt⟩ := hexpects
      cases hentries : q.inner.pendingResponseFifo with
      | nil =>
        have hturns := h.pending.turns hfifo hopen
        rw [hentries] at hturns
        exact absurd hturns (Nat.ne_of_lt hlt)
      | cons pending rest => exact h.feed_turn hfifo hopen hentries r
    · rw [Ledger.Expects, if_neg (Bool.eq_false_iff.mp hfifo)] at hexpects
      obtain ⟨k, hw, hcseq⟩ := hexpects
      exact h.feed_cseq hfifo hw hcseq
  · obtain ⟨hqueue, hledger⟩ := h.feed_unexpected r hexpects
    rw [hqueue, hledger]
    exact h

/-- The senders that a close finds are those of the waiting requests. -/
theorem mem_senders (h : Tracks q l) (hopen : l.closed = false) (k : Nat) :
    k ∈ q.inner.pendingResponse.map Prod.snd ++
        q.inner.pendingResponseFifo.filterMap FifoPending.sender ∧ l.dropped k = false ↔
      l.Waiting k := by
  rcases Bool.eq_false_or_eq_true l.fifo with hfifo | hfifo
  · have hturns := h.pending.turns hfifo hopen
    have hinTurn := h.inTurn hfifo
    rw [h.pending.noMap hfifo, List.map_nil, List.nil_append]
    constructor
    · rintro ⟨hmem, hlive⟩
      obtain ⟨hle, hlt⟩ := hturns.of_mem_senders hmem
      exact ⟨hlt, hlive, hinTurn.ahead hopen k hle⟩
    · rintro ⟨hlt, hlive, hnone⟩
      refine ⟨hturns.mem_senders (Nat.not_lt.mp fun hk => ?_) hlt hlive, hlive⟩
      -- an answered request has its response, or its future is gone
      rcases hinTurn.answered k _ (List.getElem?_eq_getElem hk) with hsome | hgone
      · rw [hnone] at hsome
        cases hsome
      · rw [hlive] at hgone
        cases hgone
  · rw [h.pending.noFifo hfifo, List.filterMap_nil, List.append_nil]
    constructor
    · rintro ⟨hmem, _⟩
      obtain ⟨⟨cseq, j⟩, hentry, rfl⟩ := List.mem_map.mp hmem
      exact ((h.pending.waiting hfifo cseq j).mp hentry).1
    · intro hw
      have hentry := (h.pending.waiting hfifo (.ofNat k) k).mpr ⟨hw, rfl⟩
      exact ⟨List.mem_map.mpr ⟨_, hentry, rfl⟩, hw.2.1⟩

theorem nodup_senders (h : Tracks q l) (hopen : l.closed = false) :
    (q.inner.pendingResponse.map Prod.snd ++
      q.inner.pendingResponseFifo.filterMap FifoPending.sender).Nodup := by
  rcases Bool.eq_false_or_eq_true l.fifo with hfifo | hfifo
  · rw [h.pending.noMap hfifo, List.map_nil, List.nil_append]
    exact (h.pending.turns hfifo hopen).nodup_senders
  · rw [h.pending.noFifo hfifo, List.filterMap_nil, List.append_nil]
    refine List.Nodup.map_on ?_ h.pending.keys.of_map
    rintro ⟨cseq, k⟩ hmem ⟨cseq', k'⟩ hmem' heq
    obtain rfl : k = k' := heq
    rw [((h.pending.waiting hfifo cseq k).mp hmem).2,
      ((h.pending.waiting hfifo cseq' k).mp hmem').2]

theorem close (h : Tracks q l) : Tracks q.close (l.step .close) := by
  rcases Bool.eq_false_or_eq_true l.closed with hclosed | hopen
  · have hstep : l.step .close = l := by
      have hself : ({ l with closed := true } : Ledger) = l := by
        rw [← hclosed]
      rw [Ledger.step, hself]
      exact settle_eq_self (fun k hw => absurd hw (h.made.closed hclosed k)) _
    rw [hstep, RtspQueue.close, if_pos (h.closed.trans hclosed)]
    exact h
  · have hmade := Ledger.made_step h.made .close
    have hturn := fun hfifo => Ledger.inTurn_step hfifo (h.inTurn hfifo) .close
    rw [RtspQueue.close, if_neg (Bool.eq_false_iff.mp (h.closed.trans hopen))]
    refine ⟨Holds.sendAll ?_ _ .closed, ?_⟩
    · refine
        { fifo := h.fifo, closed := rfl, next := h.next, asked := h.asked, handle := h.handle
          unmade := h.unmade, made := hmade, inTurn := hturn, pending := ?_ }
      refine ⟨fun _ => rfl, fun _ => rfl, fun _ => rfl, fun _ hc => (by cases hc), List.nodup_nil,
        fun _ cseq k => ⟨fun hmem => absurd hmem List.not_mem_nil, fun hw => ?_⟩⟩
      exact absurd hw.1 (hmade.closed rfl k)
    · have hsame : Agrees { q with
          inner.closed := true
          inner.pendingResponse := []
          inner.pendingResponseFifo := [] } { l with closed := true } := h.agrees
      refine hsame.settle (fun k => h.isDropped k) (h.nodup_senders hopen) (fun k => ?_) _
      exact (h.mem_senders hopen k).trans ⟨fun hw => ⟨hw, rfl⟩, fun hw => hw.1⟩

theorem step (h : Tracks q l) {op : RtspOp} (hundisturbed : Undisturbed q op)
    {q' : RtspQueue} (hstep : q.step op = some q') : Tracks q' (l.step op) := by
  cases op with
  | queue request =>
    obtain rfl := Option.some.inj hstep
    exact h.queue request hundisturbed
  | dropFuture k => exact h.dropFuture hundisturbed hstep
  | drain =>
    obtain rfl := Option.some.inj hstep
    have hpending := h.pending
    exact ⟨⟨h.fifo, h.closed, h.next, h.asked, h.handle, h.unmade, h.made, h.inTurn,
      ⟨hpending.noMap, hpending.noFifo, hpending.emptied, hpending.turns, hpending.keys,
        hpending.waiting⟩⟩, h.agrees⟩
  | feed r =>
    obtain rfl := Option.some.inj hstep
    exact h.feed r
  | close =>
    obtain rfl := Option.some.inj hstep
    exact h.close

end Tracks

/-! ## The match -/

theorem tracks_run {fifo : Bool} {ops : List RtspOp} {q : RtspQueue}
    (hrun : run RtspQueue.step (.create fifo) ops = some q)
    (hundisturbed : AllSteps RtspQueue.step Undisturbed (.create fifo) ops) :
    Tracks q (ledger fifo ops) :=
  run_simulation Ledger.step Tracks Undisturbed (fun _ _ _ _ h hop hstep => h.step hop hstep)
    (Tracks.create fifo) hundisturbed hrun

theorem fifo_ledger (fifo : Bool) (ops : List RtspOp) : (ledger fifo ops).fifo = fifo := by
  have hfold : ∀ l : Ledger, (ops.foldl Ledger.step l).fifo = l.fifo := by
    induction ops with
    | nil => exact fun _ => rfl
    | cons op ops ih => exact fun l => (ih (l.step op)).trans (Ledger.fifo_step op)
  exact hfold (.create fifo)

/-- A queue that follows the ledger matches. -/
theorem Tracks.matched {fifo : Bool} {ops : List RtspOp} {q : RtspQueue}
    (h : Tracks q (ledger fifo ops)) : Matched fifo ops q := by
  have hfifo := fifo_ledger fifo ops
  refine
    { outcomes := h.agrees.1, once := h.agrees.2
      inTurn := fun hmode k r hk => ?_, onlyInTurn := fun hmode k r hk => ?_
      ownCseq := fun hmode k r hk => ?_, unmatched := fun r hnot => ?_
      afterClose := fun before after k hops hlt hdropped hnone => ?_ }
  · rw [h.agrees.1]
    exact (h.inTurn (hfifo.trans hmode)).answered k r hk
  · exact (h.inTurn (hfifo.trans hmode)).response k r ((h.agrees.1 _ _).mp hk)
  · refine Ledger.ownCseq_foldl (show (Ledger.create fifo).fifo = false from hmode)
      (fun k r hr => by cases hr) ops k r ?_
    exact (h.agrees.1 _ _).mp hk
  · exact congrArg some (h.feed_unexpected r hnot).1
  · have hsplit : ledger fifo ops =
        after.foldl Ledger.step ((ledger fifo before).step .close) := by
      rw [hops, ledger, List.foldl_append]
      rfl
    rw [h.agrees.1, hsplit]
    rw [hsplit] at hlt
    have hmade := Ledger.made_foldl (Ledger.made_create fifo) before
    exact Ledger.outcome_close hmade hdropped hnone hlt

/-- **Requests and responses are matched** in every run in which no operation takes away the
sender of a live future. -/
theorem requests_matched (fifo : Bool) (ops : List RtspOp) (q : RtspQueue)
    (hrun : run RtspQueue.step (.create fifo) ops = some q)
    (hundisturbed : AllSteps RtspQueue.step Undisturbed (.create fifo) ops) :
    Matched fifo ops q :=
  (tracks_run hrun hundisturbed).matched

/-- A dropped future, its response and the next one in FIFO mode, and a request after the close. -/
theorem requests_matched_dropped :
    let request : RtspRequest :=
      { method := .post, url := "/command".toList, proto := "RTSP/1.0".toList, headers := []
        payload := [], cseq := none }
    let response (n : UInt8) : RtspResponse :=
      { proto := "RTSP/1.0".toList, status := .ok, headers := [], payload := [n], cseq := none }
    ∃ q, run RtspQueue.step (.create true)
        [.queue request, .queue request, .dropFuture 0, .drain, .feed (response 0),
          .feed (response 1), .feed (response 2), .close, .queue request] = some q ∧
      q.resolved = [(1, .response (response 1)), (2, .closed)] ∧
      Matched true
        [.queue request, .queue request, .dropFuture 0, .drain, .feed (response 0),
          .feed (response 1), .feed (response 2), .close, .queue request] q := by
  refine ⟨_, rfl, rfl, requests_matched true _ _ rfl ?_⟩
  decide

/-! ## The numbers wrap -/

/-- `n` requests, each answered at once. -/
def rounds (request : RtspRequest) (response : RtspResponse) (n : Nat) : List RtspOp :=
  (List.replicate n [.queue request, .feed response]).flatten

theorem rounds_succ (request : RtspRequest) (response : RtspResponse) (n : Nat) :
    rounds request response (n + 1) =
      rounds request response n ++ [.queue request, .feed response] := by
  unfold rounds
  rw [List.replicate_succ', List.flatten_concat]

/-- The open queue after `n` such requests; the first future is still there. -/
structure Quiet (n : Nat) (q : RtspQueue) : Prop where
  fifo : q.inner.fifo = true
  closed : q.inner.closed = false
  next : q.inner.nextCseq = .ofNat n
  entries : q.inner.pendingResponseFifo = []
  length : q.futures.length = n
  first : 0 < n → q.futures[0]? = some { cseq := 0, dropped := false }

theorem Quiet.queue {n : Nat} {q : RtspQueue} (h : Quiet n q) (request : RtspRequest) :
    q.queue request =
      { Tracks.handedOut q with
        inner.pendingResponseFifo := [{ cseq := .ofNat n, sender := some n }]
        inner.pendingSend :=
          q.inner.pendingSend ++ [{ request with cseq := some q.inner.nextCseq }] } := by
  have hqueue : q.queue request =
      { Tracks.handedOut q with
        inner.pendingResponseFifo := q.inner.pendingResponseFifo ++
          [{ cseq := q.inner.nextCseq, sender := some q.futures.length }]
        inner.pendingSend :=
          q.inner.pendingSend ++ [{ request with cseq := some q.inner.nextCseq }] } :=
    (if_neg (Bool.eq_false_iff.mp h.closed)).trans (if_pos h.fifo)
  rw [hqueue, h.entries, h.length, h.next]
  rfl

theorem Quiet.futures_concat {n : Nat} {q : RtspQueue} (h : Quiet n q) :
    (q.futures ++ [{ cseq := q.inner.nextCseq, dropped := false }])[0]? =
      some { cseq := 0, dropped := false } := by
  cases n with
  | zero =>
    rw [List.length_eq_zero_iff.mp h.length, h.next]
    rfl
  | succ n =>
    rw [List.getElem?_append_left (by rw [h.length]; exact Nat.succ_pos n)]
    exact h.first (Nat.succ_pos n)

theorem Quiet.round {n : Nat} {q : RtspQueue} (h : Quiet n q) (request : RtspRequest)
    (response : RtspResponse) : Quiet (n + 1) ((q.queue request).feed response) := by
  have hfeed : (q.queue request).feed response =
      { Tracks.handedOut q with
        inner.pendingResponseFifo := []
        inner.pendingSend :=
          q.inner.pendingSend ++ [{ request with cseq := some q.inner.nextCseq }] }.sendAll [n]
        (.response response) := by
    rw [h.queue]
    exact if_pos h.fifo
  rw [hfeed]
  refine ⟨?_, ?_, ?_, ?_, ?_, fun _ => ?_⟩
  · rw [inner_sendAll]
    exact h.fifo
  · rw [inner_sendAll]
    exact h.closed
  · rw [inner_sendAll, ← Tracks.ofNat_succ, ← h.next]
    rfl
  · rw [inner_sendAll]
  · rw [futures_sendAll, ← h.length]
    exact List.length_append
  · rw [futures_sendAll]
    exact h.futures_concat

theorem run_rounds (request : RtspRequest) (response : RtspResponse) (n : Nat) :
    ∃ q, run RtspQueue.step (.create true) (rounds request response n) = some q ∧ Quiet n q := by
  induction n with
  | zero => exact ⟨_, rfl, rfl, rfl, rfl, rfl, rfl, fun h => absurd h (Nat.lt_irrefl 0)⟩
  | succ n ih =>
    obtain ⟨q, hrun, hquiet⟩ := ih
    rw [rounds_succ]
    exact ⟨_, run_append.mpr ⟨q, hrun, rfl⟩, hquiet.round request response⟩

/-- The drop of the first future takes the sender of the request that has its number now. -/
theorem Quiet.dropFuture {n : Nat} {q : RtspQueue} (h : Quiet n q) (hpos : 0 < n)
    (hwrapped : UInt32.ofNat n = 0) (request : RtspRequest) :
    ∃ q', (q.queue request).dropFuture 0 = some q' ∧ q'.inner.closed = false ∧
      (n, .canceled) ∈ q'.resolved := by
  have hget : (q.queue request).futures[0]? = some { cseq := 0, dropped := false } := by
    rw [h.queue]
    exact h.futures_concat
  have hfifo : (q.queue request).inner.fifo = true := by
    rw [h.queue]
    exact h.fifo
  have hentries : (q.queue request).inner.pendingResponseFifo =
      [{ cseq := .ofNat n, sender := some n }] := by
    rw [h.queue]
  have hlength : (q.queue request).futures.length = n + 1 := by
    rw [h.queue, ← h.length]
    exact List.length_append
  have htaken : (q.queue request).takenSender 0 = some n := by
    rw [RtspQueue.takenSender, if_pos hfifo, hentries, hwrapped]
    rfl
  have hlive : (Tracks.droppedAt (q.queue request) 0
      { cseq := 0, dropped := false }).isDropped n = false := by
    rw [Tracks.isDropped_droppedAt (by rw [hlength]; exact Nat.succ_pos n),
      Function.update_of_ne (Nat.ne_of_gt hpos), RtspQueue.isDropped, h.queue]
    have hnew : (q.futures ++ [{ cseq := q.inner.nextCseq, dropped := false }])[n]? =
        some { cseq := q.inner.nextCseq, dropped := false } := by
      rw [← h.length]
      exact List.getElem?_concat_length
    exact congrArg (fun f => (Option.map RtspFuture.dropped f).getD false) hnew
  have hdrop := Tracks.dropFuture_eq hget rfl
  rw [htaken] at hdrop
  refine ⟨_, hdrop, ?_, ?_⟩
  · rw [inner_sendAll, Tracks.released, if_pos hfifo, h.queue]
    exact h.closed
  · rw [resolved_sendAll]
    refine List.mem_append_right _ (List.mem_map.mpr ⟨n, List.mem_filter.mpr ?_, rfl⟩)
    refine ⟨List.mem_singleton_self n, ?_⟩
    rw [Bool.not_eq_true']
    exact hlive

/-- **The first number comes back.** After 2^32 answered requests the drop of the very first future
takes the sender of the request that now has its number. -/
theorem requests_mismatched :
    let request : RtspRequest :=
      { method := .post, url := "/command".toList, proto := "RTSP/1.0".toList, headers := []
        payload := [], cseq := none }
    let response : RtspResponse :=
      { proto := "RTSP/1.0".toList, status := .ok, headers := [], payload := [], cseq := none }
    let ops := rounds request response (2 ^ 32) ++ [.queue request, .dropFuture 0]
    ∃ q, run RtspQueue.step (.create true) ops = some q ∧ q.inner.closed = false ∧
      (2 ^ 32, .canceled) ∈ q.resolved ∧ ¬ Matched true ops q := by
  intro request response ops
  obtain ⟨q, hrun, h⟩ := run_rounds request response (2 ^ 32)
  have hwrapped : UInt32.ofNat (2 ^ 32) = 0 := by simp
  obtain ⟨q', hdrop, hopen, hmem⟩ := h.dropFuture (Nat.two_pow_pos 32) hwrapped request
  have hrun' : run RtspQueue.step (.create true) ops = some q' := by
    refine run_append.mpr ⟨q, hrun, run_cons_eq_some.mpr ⟨q.queue request, rfl, ?_⟩⟩
    exact run_cons_eq_some.mpr ⟨q', hdrop, rfl⟩
  refine ⟨q', hrun', hopen, hmem, fun hmatched => ?_⟩
  exact Ledger.ledger_ne_canceled true ops (2 ^ 32) ((hmatched.outcomes _ _).mp hmem)

end Catplay.Analysis.Rtsp.Queue
