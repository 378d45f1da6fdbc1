import Mathlib.Data.Set.Insert
import Mathlib.Data.List.Basic

/-!
# A sliding window over two lossy FIFO channels

The abstract protocol behind a link that numbers its packets. A sender appends items to
`sent` and puts their positions into a channel; a receiver has taken over the first
`delivered` items, keeps the positions `buffered` that came too early, and answers with
the number of items it has; the sender has seen `acked` of these. Both channels are FIFO
and may lose or repeat an entry in place. An entry `none` is one that carries nothing
for this direction.

`Window.Inv size` bounds everything in flight by the size of the window: an item that is
still under way is less than `size` behind anything the receiver can have by the time it
arrives (`data_late`, `data_order`), and no acknowledgement is older than the last one
seen (`acks_range`, `acks_order`). This is what lets numbers modulo a power of two stand
for positions. Each operation keeps the invariant.
-/

set_option autoImplicit false

namespace Catplay.Library

/-- One direction of the protocol. -/
structure Window (α : Type*) where
  sent : List α
  /-- How many items the sender knows to be delivered. -/
  acked : Nat
  delivered : Nat
  /-- Positions received before their predecessors. -/
  buffered : Set Nat
  /-- Positions on their way to the receiver, the oldest first. -/
  data : List (Option Nat)
  /-- Acknowledgements on their way to the sender, the oldest first. -/
  acks : List (Option Nat)

namespace Window

variable {α : Type*} {size : Nat} {w : Window α}

/-- Nothing has been sent. -/
def initial (α : Type*) : Window α where
  sent := []
  acked := 0
  delivered := 0
  buffered := ∅
  data := []
  acks := []

/-- Position `x` may be followed by position `y` in a channel. -/
def Follows (size : Nat) (x y : Option Nat) : Prop :=
  ∀ j k, x = some j → y = some k → j < k + size

/-- Acknowledgements do not go back. -/
def Ascends (x y : Option Nat) : Prop := ∀ j k, x = some j → y = some k → j ≤ k

/-- The invariant of the protocol. -/
structure Inv (size : Nat) (w : Window α) : Prop where
  acked_le : w.acked ≤ w.delivered
  delivered_le : w.delivered ≤ w.sent.length
  sent_le : w.sent.length ≤ w.acked + size
  buffered_range : ∀ j ∈ w.buffered, w.delivered ≤ j ∧ j < w.sent.length
  data_sent : ∀ k, some k ∈ w.data → k < w.sent.length
  data_late : ∀ k, some k ∈ w.data →
    w.delivered ≤ k + size ∧ ∀ j ∈ w.buffered, j < k + size
  data_order : w.data.Pairwise (Follows size)
  acks_range : ∀ a, some a ∈ w.acks → w.acked ≤ a ∧ a ≤ w.delivered
  acks_order : w.acks.Pairwise Ascends

/-- The next item is not among those that came too early. -/
def Settled (w : Window α) : Prop := w.delivered ∉ w.buffered

theorem Inv.initial : Inv size (Window.initial α) := by
  constructor <;> simp [Window.initial]

/-- Nothing is sent yet, and what is under way carries nothing. -/
theorem Inv.unused {data acks : List (Option Nat)} (hdata : ∀ k, some k ∉ data)
    (hacks : ∀ a, some a ∈ acks → a = 0) :
    Inv size { Window.initial α with data, acks } := by
  refine { (Inv.initial : Inv size (Window.initial α)) with
    data_sent := fun k hk => absurd hk (hdata k)
    data_late := fun k hk => absurd hk (hdata k)
    data_order := ?_
    acks_range := fun a ha => by simp [Window.initial, hacks a ha]
    acks_order := ?_ }
  · refine List.pairwise_of_forall_mem_list fun x hx y hy j k hj _ => ?_
    rw [hj] at hx
    exact absurd hx (hdata j)
  · refine List.pairwise_of_forall_mem_list fun x hx y hy j k hj hk => ?_
    rw [hj] at hx
    rw [hacks j hx]
    exact Nat.zero_le k

/-! ## The sender -/

/-- An entry at the end of a channel that all others may precede. -/
theorem pairwise_concat {β : Type*} {R : β → β → Prop} {l : List β} {x : β}
    (h : l.Pairwise R) (hx : ∀ y ∈ l, R y x) : (l ++ [x]).Pairwise R := by
  rw [List.pairwise_append]
  refine ⟨h, List.pairwise_singleton R x, fun y hy z hz => ?_⟩
  rw [List.mem_singleton.mp hz]
  exact hx y hy

/-- Put a position that is not acknowledged into the channel, for the first time or again. -/
theorem Inv.put (h : Inv size w) {k : Nat} (hnew : w.acked ≤ k) (hsent : k < w.sent.length) :
    Inv size { w with data := w.data ++ [some k] } := by
  have hsize := h.sent_le
  refine { h with data_sent := ?_, data_late := ?_, data_order := ?_ }
  · intro j hj
    rcases List.mem_append.mp hj with hj | hj
    · exact h.data_sent j hj
    · obtain rfl := Option.some.inj (List.mem_singleton.mp hj)
      exact hsent
  · intro j hj
    rcases List.mem_append.mp hj with hj | hj
    · exact h.data_late j hj
    · obtain rfl := Option.some.inj (List.mem_singleton.mp hj)
      have hdelivered := h.delivered_le
      have hlate : w.delivered ≤ j + size := by omega
      refine ⟨hlate, fun i hi => ?_⟩
      have hrange := h.buffered_range i hi
      omega
  · refine pairwise_concat h.data_order fun x hx => ?_
    rintro i j rfl hj
    obtain rfl := Option.some.inj hj
    have hold := h.data_sent i hx
    omega

/-- An item more is sent, if the window allows. -/
theorem Inv.push (h : Inv size w) (a : α) (hroom : w.sent.length < w.acked + size) :
    Inv size { w with sent := w.sent ++ [a] } := by
  have hlength : (w.sent ++ [a]).length = w.sent.length + 1 := by simp
  refine { h with delivered_le := ?_, sent_le := ?_, buffered_range := ?_, data_sent := ?_ }
  · have hdelivered := h.delivered_le
    simp only [hlength]
    omega
  · simp only [hlength]
    omega
  · intro j hj
    have hrange := h.buffered_range j hj
    simp only [hlength]
    omega
  · intro k hk
    have hold := h.data_sent k hk
    simp only [hlength]
    omega

/-- An entry that carries nothing. -/
theorem Inv.blank (h : Inv size w) : Inv size { w with data := w.data ++ [none] } := by
  refine { h with data_sent := ?_, data_late := ?_, data_order := ?_ }
  · intro k hk
    exact h.data_sent k (by simpa using hk)
  · intro k hk
    exact h.data_late k (by simpa using hk)
  · refine pairwise_concat h.data_order fun x hx => ?_
    intro i j _ hj
    cases hj

/-- The sender reads an acknowledgement. -/
theorem Inv.readAck (h : Inv size w) {a : Nat} {rest : List (Option Nat)}
    (hacks : w.acks = some a :: rest) : Inv size { w with acked := a, acks := rest } := by
  have hmem : some a ∈ w.acks := by simp [hacks]
  obtain ⟨hold, hdelivered⟩ := h.acks_range a hmem
  have horder := h.acks_order
  rw [hacks] at horder
  obtain ⟨hlater, hrest⟩ := List.pairwise_cons.mp horder
  have hsize := h.sent_le
  refine { h with acked_le := hdelivered, sent_le := ?_, acks_range := ?_, acks_order := hrest }
  · dsimp only
    omega
  · intro b hb
    have hb' : some b ∈ w.acks := by
      rw [hacks]
      exact List.mem_cons_of_mem _ hb
    exact ⟨hlater (some b) hb a b rfl rfl, (h.acks_range b hb').2⟩

/-! ## The receiver -/

/-- The receiver writes an acknowledgement. -/
theorem Inv.writeAck (h : Inv size w) :
    Inv size { w with acks := w.acks ++ [some w.delivered] } := by
  refine { h with acks_range := ?_, acks_order := ?_ }
  · intro a ha
    rcases List.mem_append.mp ha with ha | ha
    · exact h.acks_range a ha
    · obtain rfl := Option.some.inj (List.mem_singleton.mp ha)
      exact ⟨h.acked_le, Nat.le_refl _⟩
  · refine pairwise_concat h.acks_order fun x hx => ?_
    rintro i j rfl hj
    obtain rfl := Option.some.inj hj
    exact (h.acks_range i hx).2

/-- The receiver writes an entry without an acknowledgement. -/
theorem Inv.blankAck (h : Inv size w) : Inv size { w with acks := w.acks ++ [none] } := by
  refine { h with acks_range := ?_, acks_order := ?_ }
  · intro a ha
    exact h.acks_range a (by simpa using ha)
  · refine pairwise_concat h.acks_order fun x hx => ?_
    intro i j _ hj
    cases hj

/-- The next item arrives. -/
theorem Inv.accept (h : Inv size w) {rest : List (Option Nat)}
    (hdata : w.data = some w.delivered :: rest) (hsettled : w.Settled) :
    Inv size { w with delivered := w.delivered + 1, data := rest } := by
  have hmem : some w.delivered ∈ w.data := by simp [hdata]
  have horder := h.data_order
  rw [hdata] at horder
  obtain ⟨hlater, hrest⟩ := List.pairwise_cons.mp horder
  have hin : ∀ k, some k ∈ rest → some k ∈ w.data := by
    intro k hk
    rw [hdata]
    exact List.mem_cons_of_mem _ hk
  have hacked := h.acked_le
  refine { h with acked_le := ?_, delivered_le := h.data_sent _ hmem, buffered_range := ?_,
                  data_sent := fun k hk => h.data_sent k (hin k hk), data_late := ?_,
                  data_order := hrest, acks_range := ?_ }
  · dsimp only
    omega
  · intro j hj
    obtain ⟨hlow, hhigh⟩ := h.buffered_range j hj
    refine ⟨Nat.lt_of_le_of_ne hlow ?_, hhigh⟩
    rintro rfl
    exact hsettled hj
  · intro k hk
    exact ⟨hlater (some k) hk _ k rfl rfl, (h.data_late k (hin k hk)).2⟩
  · intro a ha
    have hrange := h.acks_range a ha
    dsimp only
    omega

/-- The next item was waiting. -/
theorem Inv.release (h : Inv size w) (hwaiting : w.delivered ∈ w.buffered) :
    Inv size { w with delivered := w.delivered + 1, buffered := w.buffered \ {w.delivered} } := by
  have hacked := h.acked_le
  refine { h with acked_le := ?_, delivered_le := (h.buffered_range _ hwaiting).2,
                  buffered_range := ?_, data_late := ?_, acks_range := ?_ }
  · dsimp only
    omega
  · rintro j ⟨hj, hne⟩
    obtain ⟨hlow, hhigh⟩ := h.buffered_range j hj
    exact ⟨Nat.lt_of_le_of_ne hlow fun heq => hne heq.symm, hhigh⟩
  · intro k hk
    obtain ⟨-, hbuffered⟩ := h.data_late k hk
    exact ⟨hbuffered _ hwaiting, fun j hj => hbuffered j hj.1⟩
  · intro a ha
    have hrange := h.acks_range a ha
    dsimp only
    omega

/-- An item that comes too early waits. -/
theorem Inv.hold (h : Inv size w) {k : Nat} {rest : List (Option Nat)}
    (hdata : w.data = some k :: rest) (hearly : w.delivered ≤ k) :
    Inv size { w with buffered := insert k w.buffered, data := rest } := by
  have hmem : some k ∈ w.data := by simp [hdata]
  have horder := h.data_order
  rw [hdata] at horder
  obtain ⟨hlater, hrest⟩ := List.pairwise_cons.mp horder
  have hin : ∀ i, some i ∈ rest → some i ∈ w.data := by
    intro i hi
    rw [hdata]
    exact List.mem_cons_of_mem _ hi
  refine { h with buffered_range := ?_, data_sent := fun i hi => h.data_sent i (hin i hi),
                  data_late := ?_, data_order := hrest }
  · rintro j (rfl | hj)
    · exact ⟨hearly, h.data_sent j hmem⟩
    · exact h.buffered_range j hj
  · intro i hi
    obtain ⟨hlow, hbuffered⟩ := h.data_late i (hin i hi)
    refine ⟨hlow, ?_⟩
    rintro j (rfl | hj)
    · exact hlater (some i) hi j i rfl rfl
    · exact hbuffered j hj

/-! ## The channels -/

/-- Entries of the data channel are lost. -/
theorem Inv.loseData (h : Inv size w) {data : List (Option Nat)} (hsub : data.Sublist w.data) :
    Inv size { w with data } :=
  { h with
    data_sent := fun k hk => h.data_sent k (hsub.subset hk)
    data_late := fun k hk => h.data_late k (hsub.subset hk)
    data_order := h.data_order.sublist hsub }

/-- Acknowledgements are lost. -/
theorem Inv.loseAcks (h : Inv size w) {acks : List (Option Nat)} (hsub : acks.Sublist w.acks) :
    Inv size { w with acks } :=
  { h with
    acks_range := fun a ha => h.acks_range a (hsub.subset ha)
    acks_order := h.acks_order.sublist hsub }

/-- An entry that may follow itself can be repeated in place. -/
theorem pairwise_repeat {β : Type*} {R : β → β → Prop} {l₁ l₂ : List β} {x : β}
    (h : (l₁ ++ x :: l₂).Pairwise R) (hx : R x x) : (l₁ ++ x :: x :: l₂).Pairwise R := by
  rw [List.pairwise_append] at h ⊢
  obtain ⟨hfirst, hsecond, hacross⟩ := h
  obtain ⟨hhead, hrest⟩ := List.pairwise_cons.mp hsecond
  refine ⟨hfirst, List.pairwise_cons.mpr ⟨?_, hsecond⟩, fun y hy z hz => ?_⟩
  · intro z hz
    rcases List.mem_cons.mp hz with rfl | hz
    · exact hx
    · exact hhead z hz
  · rcases List.mem_cons.mp hz with rfl | hz
    · exact hacross y hy z List.mem_cons_self
    · exact hacross y hy z hz

/-- An entry of the data channel is repeated. -/
theorem Inv.repeatData (h : Inv size w) (hsize : 0 < size) {l₁ l₂ : List (Option Nat)}
    {x : Option Nat} (hdata : w.data = l₁ ++ x :: l₂) :
    Inv size { w with data := l₁ ++ x :: x :: l₂ } := by
  have hin : ∀ k, some k ∈ l₁ ++ x :: x :: l₂ → some k ∈ w.data := by
    intro k hk
    rw [hdata]
    simp only [List.mem_append, List.mem_cons] at hk ⊢
    tauto
  refine { h with
    data_sent := fun k hk => h.data_sent k (hin k hk)
    data_late := fun k hk => h.data_late k (hin k hk)
    data_order := pairwise_repeat (hdata ▸ h.data_order) ?_ }
  rintro j k hj hk
  obtain rfl := Option.some.inj (hj.symm.trans hk)
  omega

/-- An acknowledgement is repeated. -/
theorem Inv.repeatAck (h : Inv size w) {l₁ l₂ : List (Option Nat)} {x : Option Nat}
    (hacks : w.acks = l₁ ++ x :: l₂) : Inv size { w with acks := l₁ ++ x :: x :: l₂ } := by
  have hin : ∀ a, some a ∈ l₁ ++ x :: x :: l₂ → some a ∈ w.acks := by
    intro a ha
    rw [hacks]
    simp only [List.mem_append, List.mem_cons] at ha ⊢
    tauto
  refine { h with
    acks_range := fun a ha => h.acks_range a (hin a ha)
    acks_order := pairwise_repeat (hacks ▸ h.acks_order) ?_ }
  rintro j k hj hk
  obtain rfl := Option.some.inj (hj.symm.trans hk)
  exact Nat.le_refl j

end Window

end Catplay.Library
