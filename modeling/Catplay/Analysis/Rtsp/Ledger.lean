import Catplay.Model.Rtsp.Queue

/-!
# The ledger of the requests

What a request queue is for: the `Ledger` says what becomes of each request. It counts them without
bound, where the queue has a number of 32 bits for each.
-/

set_option autoImplicit false

namespace Catplay.Analysis.Rtsp.Queue

open Catplay.Model.Rtsp

/-! ## The ledger -/

/-- `answers` are the responses that took a turn, in FIFO mode. -/
structure Ledger where
  fifo : Bool
  closed : Bool
  asked : Nat
  answers : List RtspResponse
  dropped : Nat → Bool
  outcome : Nat → Option Resolution

namespace Ledger

def create (fifo : Bool) : Ledger :=
  { fifo
    closed := false
    asked := 0
    answers := []
    dropped := fun _ => false
    outcome := fun _ => none }

/-- A request without an outcome whose future is still there. -/
def Waiting (l : Ledger) (k : Nat) : Prop :=
  k < l.asked ∧ l.dropped k = false ∧ l.outcome k = none

instance (l : Ledger) (k : Nat) : Decidable (l.Waiting k) :=
  inferInstanceAs (Decidable (_ ∧ _ ∧ _))

/-- The waiting requests among `p` get their outcome. -/
def settle (l : Ledger) (p : Nat → Bool) (d : Resolution) : Ledger :=
  { l with outcome := fun k => if l.Waiting k ∧ p k then some d else l.outcome k }

/-- **A response is expected**: in FIFO mode by the request whose turn it is, dropped or not, and
in CSeq mode by a waiting request with its number. -/
def Expects (l : Ledger) (r : RtspResponse) : Prop :=
  if l.fifo then l.closed = false ∧ l.answers.length < l.asked
  else ∃ k, l.Waiting k ∧ r.cseq = some (.ofNat k)

def step (l : Ledger) : RtspOp → Ledger
  | .queue _ =>
    { l with
      asked := l.asked + 1
      outcome :=
        if l.closed then Function.update l.outcome l.asked (some .closed) else l.outcome }
  | .dropFuture k => { l with dropped := Function.update l.dropped k true }
  | .drain => l
  | .feed r =>
    if l.fifo then
      if l.closed = false ∧ l.answers.length < l.asked then
        { l with answers := l.answers ++ [r] }.settle (· = l.answers.length) (.response r)
      else l
    else l.settle (fun k => r.cseq = some (.ofNat k)) (.response r)
  | .close => { l with closed := true }.settle (fun _ => true) .closed

end Ledger

def ledger (fifo : Bool) (ops : List RtspOp) : Ledger :=
  ops.foldl Ledger.step (Ledger.create fifo)

/-! ## What the ledger says -/

namespace Ledger

/-- Only requests that were made have an outcome or lost their future. -/
structure Made (l : Ledger) : Prop where
  outcome : ∀ k d, l.outcome k = some d → k < l.asked
  closed : l.closed = true → ∀ k, ¬ l.Waiting k

variable {l : Ledger}

theorem outcome_settle {p : Nat → Bool} {d e : Resolution} {k : Nat} :
    (l.settle p d).outcome k = some e ↔ l.outcome k = some e ∨ (l.Waiting k ∧ p k) ∧ d = e := by
  show (if l.Waiting k ∧ p k then some d else l.outcome k) = some e ↔ _
  by_cases hw : l.Waiting k ∧ p k
  · rw [if_pos hw]
    constructor
    · exact fun h => Or.inr ⟨hw, Option.some.inj h⟩
    · rintro (h | ⟨_, rfl⟩)
      · rw [hw.1.2.2] at h
        cases h
      · rfl
  · rw [if_neg hw]
    exact ⟨Or.inl, fun h => h.resolve_right fun hp => hw hp.1⟩

theorem settle_of_some {p : Nat → Bool} {d e : Resolution} {k : Nat}
    (h : l.outcome k = some e) : (l.settle p d).outcome k = some e :=
  outcome_settle.mpr (Or.inl h)

/-- Settling leaves nothing waiting that was not. -/
theorem waiting_settle {p : Nat → Bool} {d : Resolution} {k : Nat} :
    (l.settle p d).Waiting k ↔ l.Waiting k ∧ p k = false := by
  show (k < l.asked ∧ l.dropped k = false ∧
    (if l.Waiting k ∧ p k then some d else l.outcome k) = none) ↔ _
  by_cases hw : l.Waiting k ∧ p k
  · rw [if_pos hw]
    simp [hw.2]
  · rw [if_neg hw]
    constructor
    · intro h
      exact ⟨h, Bool.eq_false_iff.mpr fun hp => hw ⟨h, hp⟩⟩
    · exact fun h => h.1

/-- **An outcome is final.** -/
theorem outcome_step (h : l.Made) {k : Nat} {d : Resolution} (hk : l.outcome k = some d)
    (op : RtspOp) : (l.step op).outcome k = some d := by
  cases op with
  | queue request =>
    simp only [step]
    split
    · rw [Function.update_of_ne (Nat.ne_of_lt (h.outcome k d hk)), hk]
    · exact hk
  | dropFuture j => exact hk
  | drain => exact hk
  | feed r =>
    simp only [step]
    split
    · split
      · exact settle_of_some hk
      · exact hk
    · exact settle_of_some hk
  | close => exact settle_of_some hk

theorem closed_step (h : l.closed = true) (op : RtspOp) : (l.step op).closed = true := by
  cases op with
  | feed r =>
    simp only [step]
    split
    · split <;> exact h
    · exact h
  | close => rfl
  | _ => exact h

theorem fifo_step (op : RtspOp) : (l.step op).fifo = l.fifo := by
  cases op with
  | feed r =>
    simp only [step]
    split
    · split <;> rfl
    · rfl
  | _ => rfl

theorem made_settle (h : l.Made) (p : Nat → Bool) (d : Resolution) : (l.settle p d).Made := by
  refine ⟨fun k e hk => ?_, fun hclosed k hw => h.closed hclosed k (waiting_settle.mp hw).1⟩
  rcases outcome_settle.mp hk with hold | ⟨⟨hw, _⟩, _⟩
  · exact h.outcome k e hold
  · exact hw.1

theorem made_step (h : l.Made) (op : RtspOp) : (l.step op).Made := by
  cases op with
  | queue request =>
    refine ⟨fun k d hk => ?_, fun hclosed k hw => ?_⟩
    · rcases Nat.lt_trichotomy k l.asked with hlt | rfl | hgt
      · exact Nat.lt_succ_of_lt hlt
      · exact Nat.lt_succ_self _
      · simp only [step] at hk
        split at hk
        · rw [Function.update_of_ne (Nat.ne_of_gt hgt)] at hk
          exact Nat.lt_succ_of_lt (h.outcome k d hk)
        · exact Nat.lt_succ_of_lt (h.outcome k d hk)
    · obtain ⟨hlt, hdropped, hnone⟩ := hw
      simp only [step] at hlt hdropped hnone hclosed
      rw [if_pos hclosed] at hnone
      by_cases hk : k = l.asked
      · rw [hk, Function.update_self] at hnone
        cases hnone
      · rw [Function.update_of_ne hk] at hnone
        exact h.closed hclosed k ⟨by omega, hdropped, hnone⟩
  | dropFuture j =>
    refine ⟨h.outcome, fun hclosed k hw => h.closed hclosed k ⟨hw.1, ?_, hw.2.2⟩⟩
    have hdropped : Function.update l.dropped j true k = false := hw.2.1
    by_cases hk : k = j
    · rw [hk, Function.update_self] at hdropped
      cases hdropped
    · rwa [Function.update_of_ne hk] at hdropped
  | drain => exact h
  | feed r =>
    simp only [step]
    split
    · split
      · have hnext : { l with answers := l.answers ++ [r] }.Made := ⟨h.outcome, h.closed⟩
        exact made_settle hnext _ _
      · exact h
    · exact made_settle h _ _
  | close =>
    refine ⟨fun k d hk => ?_, fun _ k hw => Bool.noConfusion (waiting_settle.mp hw).2⟩
    rcases outcome_settle.mp hk with hold | ⟨⟨hw, _⟩, _⟩
    · exact h.outcome k d hold
    · exact hw.1

theorem made_create (fifo : Bool) : (create fifo).Made :=
  ⟨fun _ _ h => (by cases h), fun h => (by cases h)⟩

theorem made_foldl (h : l.Made) (ops : List RtspOp) : (ops.foldl step l).Made := by
  induction ops generalizing l with
  | nil => exact h
  | cons op ops ih => exact ih (made_step h op)

theorem outcome_foldl (h : l.Made) {k : Nat} {d : Resolution} (hk : l.outcome k = some d)
    (ops : List RtspOp) : (ops.foldl step l).outcome k = some d := by
  induction ops generalizing l with
  | nil => exact hk
  | cons op ops ih => exact ih (made_step h op) (outcome_step h hk op)

/-- **Later requests.** Every request made after the close gets the outcome `closed`. -/
theorem outcome_of_asked_le (h : l.Made) (hclosed : l.closed = true) {k : Nat} (hk : l.asked ≤ k)
    {ops : List RtspOp} (hlt : k < (ops.foldl step l).asked) :
    (ops.foldl step l).outcome k = some .closed := by
  induction ops generalizing l with
  | nil => exact absurd hlt (Nat.not_lt.mpr hk)
  | cons op ops ih =>
    have hnext := closed_step hclosed op
    by_cases hle : (l.step op).asked ≤ k
    · exact ih (made_step h op) hnext hle hlt
    · -- the request was made by this operation
      refine outcome_foldl (made_step h op) ?_ ops
      cases op with
      | queue request =>
        have hk' : k = l.asked := by
          simp only [step] at hle
          omega
        simp only [step, if_pos hclosed, hk', Function.update_self]
      | feed r =>
        have hsame : (l.step (.feed r)).asked = l.asked := by
          simp only [step]
          split
          · split <;> rfl
          · rfl
        omega
      | _ => exact absurd hk hle

/-- What the close finds waiting, and what comes after it, is closed. -/
theorem outcome_close (h : l.Made) {k : Nat} (hdropped : l.dropped k = false)
    (hnone : l.outcome k = none) {ops : List RtspOp}
    (hlt : k < (ops.foldl step (l.step .close)).asked) :
    (ops.foldl step (l.step .close)).outcome k = some .closed := by
  have hmade := made_step h .close
  by_cases hk : k < l.asked
  · have hw : { l with closed := true }.Waiting k := ⟨hk, hdropped, hnone⟩
    refine outcome_foldl hmade ?_ ops
    exact outcome_settle.mpr (Or.inr ⟨⟨hw, rfl⟩, rfl⟩)
  · exact outcome_of_asked_le hmade rfl (Nat.not_lt.mp hk) hlt

/-- The outcomes in FIFO mode are the responses in their turn. -/
structure InTurn (l : Ledger) : Prop where
  response : ∀ k r, l.outcome k = some (.response r) → l.answers[k]? = some r
  answered : ∀ k r, l.answers[k]? = some r →
    l.outcome k = some (.response r) ∨ l.dropped k = true
  ahead : l.closed = false → ∀ k, l.answers.length ≤ k → l.outcome k = none
  length : l.answers.length ≤ l.asked

theorem inTurn_create (fifo : Bool) : (create fifo).InTurn :=
  ⟨fun _ _ h => (by cases h), fun k r h => (by simp [create] at h), fun _ _ _ => rfl,
    Nat.le_refl _⟩

/-- The next response goes to the request whose turn it is. -/
theorem inTurn_feed (h : l.InTurn) (hopen : l.closed = false)
    (hlt : l.answers.length < l.asked) (r : RtspResponse) :
    ({ l with answers := l.answers ++ [r] }.settle (· = l.answers.length)
      (.response r)).InTurn := by
  have hpart : ∀ k, ({ l with answers := l.answers ++ [r] }.settle (· = l.answers.length)
      (.response r)).Waiting k ↔ l.Waiting k ∧ k ≠ l.answers.length := by
    intro k
    refine waiting_settle.trans ?_
    rw [decide_eq_false_iff_not]
    rfl
  refine ⟨fun k r' hk => ?_, fun k r' hk => ?_, fun _ k hk => ?_, ?_⟩
  · rcases outcome_settle.mp hk with hold | ⟨⟨_, hturn⟩, heq⟩
    · have hget := h.response k r' hold
      have hklt := (List.getElem?_eq_some_iff.mp hget).1
      exact (List.getElem?_append_left hklt).trans hget
    · obtain rfl := Resolution.response.inj heq
      obtain rfl := of_decide_eq_true hturn
      exact List.getElem?_concat_length
  · change (l.answers ++ [r])[k]? = some r' at hk
    rcases Nat.lt_trichotomy k l.answers.length with hklt | rfl | hgt
    · rw [List.getElem?_append_left hklt] at hk
      exact (h.answered k r' hk).imp settle_of_some id
    · rw [List.getElem?_concat_length] at hk
      obtain rfl := Option.some.inj hk
      cases hdropped : l.dropped l.answers.length with
      | true => exact Or.inr hdropped
      | false =>
        have hw : { l with answers := l.answers ++ [r] }.Waiting l.answers.length :=
          ⟨hlt, hdropped, h.ahead hopen _ (Nat.le_refl _)⟩
        exact Or.inl (outcome_settle.mpr (Or.inr ⟨⟨hw, decide_eq_true rfl⟩, rfl⟩))
    · rw [List.getElem?_eq_none (by rw [List.length_append]; exact hgt)] at hk
      cases hk
  · change (l.answers ++ [r]).length ≤ k at hk
    rw [List.length_append, List.length_singleton] at hk
    refine Option.eq_none_iff_forall_ne_some.mpr fun e he => ?_
    rcases outcome_settle.mp he with hold | ⟨⟨_, hturn⟩, _⟩
    · have hnone := h.ahead hopen k (by omega)
      rw [show l.outcome k = some e from hold] at hnone
      cases hnone
    · have := of_decide_eq_true hturn
      omega
  · show (l.answers ++ [r]).length ≤ l.asked
    rw [List.length_append, List.length_singleton]
    exact hlt

theorem inTurn_step (hfifo : l.fifo = true) (h : l.InTurn) (op : RtspOp) :
    (l.step op).InTurn := by
  cases op with
  | queue request =>
    refine ⟨fun k r hk => ?_, fun k r hk => ?_, fun hopen k hk => ?_,
      Nat.le_succ_of_le h.length⟩
    · simp only [step] at hk
      split at hk
      · by_cases hka : k = l.asked
        · rw [hka, Function.update_self] at hk
          cases hk
        · rw [Function.update_of_ne hka] at hk
          exact h.response k r hk
      · exact h.response k r hk
    · have hka : k ≠ l.asked := by
        have hklt := (List.getElem?_eq_some_iff.mp hk).1
        have hlength := h.length
        simp only [step] at hklt
        omega
      simp only [step]
      split
      · rw [Function.update_of_ne hka]
        exact h.answered k r hk
      · exact h.answered k r hk
    · simp only [step] at hopen hk ⊢
      rw [if_neg (by rw [hopen]; exact Bool.false_ne_true)]
      exact h.ahead hopen k hk
  | dropFuture j =>
    refine ⟨h.response, fun k r hk => (h.answered k r hk).imp_right fun hd => ?_, h.ahead,
      h.length⟩
    show Function.update l.dropped j true k = true
    by_cases hkj : k = j
    · rw [hkj, Function.update_self]
    · rw [Function.update_of_ne hkj, hd]
  | drain => exact h
  | feed r =>
    simp only [step, if_pos hfifo]
    split
    · rename_i hexpects
      exact inTurn_feed h hexpects.1 hexpects.2 r
    · exact h
  | close =>
    refine ⟨fun k r hk => ?_, fun k r hk => (h.answered k r hk).imp_left settle_of_some,
      fun hopen => (by cases hopen), h.length⟩
    rcases outcome_settle.mp hk with hold | ⟨_, heq⟩
    · exact h.response k r hold
    · cases heq

/-- The outcomes in CSeq mode are the responses with the number of the request. -/
def OwnCseq (l : Ledger) : Prop :=
  ∀ k r, l.outcome k = some (.response r) → r.cseq = some (.ofNat k)

theorem ownCseq_step (hfifo : l.fifo = false) (h : l.OwnCseq) (op : RtspOp) :
    (l.step op).OwnCseq := by
  intro k r hk
  cases op with
  | queue request =>
    simp only [step] at hk
    split at hk
    · by_cases hka : k = l.asked
      · rw [hka, Function.update_self] at hk
        cases hk
      · rw [Function.update_of_ne hka] at hk
        exact h k r hk
    · exact h k r hk
  | dropFuture j => exact h k r hk
  | drain => exact h k r hk
  | feed r' =>
    simp only [step, hfifo, Bool.false_eq_true, if_false] at hk
    rcases outcome_settle.mp hk with hold | ⟨⟨_, hown⟩, heq⟩
    · exact h k r hold
    · obtain rfl := Resolution.response.inj heq
      exact of_decide_eq_true hown
  | close =>
    rcases outcome_settle.mp hk with hold | ⟨_, heq⟩
    · exact h k r hold
    · cases heq

theorem ownCseq_foldl (hfifo : l.fifo = false) (h : l.OwnCseq) (ops : List RtspOp) :
    (ops.foldl step l).OwnCseq := by
  induction ops generalizing l with
  | nil => exact h
  | cons op ops ih => exact ih ((fifo_step op).trans hfifo) (ownCseq_step hfifo h op)

/-- The ledger never gives a request up. -/
theorem outcome_ne_canceled (ops : List RtspOp) (h : ∀ k, l.outcome k ≠ some .canceled) (k : Nat) :
    (ops.foldl step l).outcome k ≠ some .canceled := by
  have hsettle : ∀ {l : Ledger} (p : Nat → Bool) {d : Resolution}, d ≠ .canceled →
      (∀ k, l.outcome k ≠ some .canceled) → ∀ k, (l.settle p d).outcome k ≠ some .canceled := by
    intro l p d hd hl k hk
    rcases outcome_settle.mp hk with hold | ⟨_, heq⟩
    · exact hl k hold
    · exact hd heq
  induction ops generalizing l with
  | nil => exact h k
  | cons op ops ih =>
    refine ih fun k => ?_
    cases op with
    | queue request =>
      simp only [step]
      split
      · by_cases hk : k = l.asked
        · rw [hk, Function.update_self]
          exact fun heq => by cases heq
        · rw [Function.update_of_ne hk]
          exact h k
      · exact h k
    | dropFuture j => exact h k
    | drain => exact h k
    | feed r =>
      simp only [step]
      split
      · split
        · refine hsettle _ ?_ ?_ k
          · nofun
          · exact h
        · exact h k
      · refine hsettle _ ?_ h k
        nofun
    | close =>
      refine hsettle _ ?_ ?_ k
      · nofun
      · exact h

theorem ledger_ne_canceled (fifo : Bool) (ops : List RtspOp) (k : Nat) :
    (ledger fifo ops).outcome k ≠ some .canceled :=
  outcome_ne_canceled ops (fun _ => by nofun) k

end Ledger

end Catplay.Analysis.Rtsp.Queue
